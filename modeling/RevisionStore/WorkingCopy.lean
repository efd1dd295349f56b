import RevisionStore.Draft
import RevisionStore.Store

/-!
# Working copies

A `WorkingCopy` is a draft under a checkout number. The number is the store's; the
draft belongs to the copy alone.
-/

namespace RevisionStore

/-- A draft that was checked out of a store. -/
structure WorkingCopy (K : Type) (V : Type) where
  id : CheckoutId
  draft : Draft K V

namespace WorkingCopy

variable {K V : Type}

def describe (c : WorkingCopy K V) : String :=
  s!"WorkingCopy \x7b id: CheckoutId({c.id.number}), revision: {c.draft.base.revision}, " ++
  s!"added: {c.draft.added.length}, modified: {c.draft.touched.length}, " ++
  s!"removed: {c.draft.removed.length} \x7d"

end WorkingCopy

end RevisionStore
