import RevisionStore.Error

/-!
# Cloning and merging values

The store never looks into a value. What it has to do with values it leaves to a
`Reconciler`: hand out a clone, and merge the store's value with a local one.
Either may give up with a `Fault`; a reconciler that never does is `Total`.

Besides the plain reconciler, for which every value is its own clone and the
local value wins a merge, there are three for text that make clones and merges
visible.
-/

namespace RevisionStore

structure Reconciler (V : Type) where
  clone : V → Except Fault V
  -- merge the store's value (first) with a local one
  merge : V → V → Except Fault V

namespace Reconciler

variable {V : Type}

/-- Neither cloning nor merging ever gives up. -/
def Total (r : Reconciler V) : Prop :=
  (∀ v, ∃ w, r.clone v = .ok w) ∧ ∀ v w, ∃ m, r.merge v w = .ok m

/-- A clone, with a fault seen as a failure of the operation that asked for it. -/
def cloned (r : Reconciler V) (v : V) : Except Failure V :=
  (r.clone v).mapError .fault

def merged (r : Reconciler V) (repository : V) (own : V) : Except Failure V :=
  (r.merge repository own).mapError .fault

/-- A value is its own clone, and the local value wins a merge. -/
def plain : Reconciler V where
  clone v := .ok v
  merge _ own := .ok own

/-- Text whose merge joins both sides with a bar. -/
def joining : Reconciler String where
  clone v := .ok v
  merge repository own := .ok (repository ++ "|" ++ own)

/-- Text whose clones carry a mark and whose merges are written as a pair. -/
def tagging : Reconciler String where
  clone v := .ok (v ++ "'")
  merge repository own := .ok ("(" ++ repository ++ "," ++ own ++ ")")

/-- Joined text that refuses to clone a value with an exclamation mark in it, and
to merge a local value with a question mark in it. -/
def fused : Reconciler String where
  clone v := if v.contains '!' then .error ⟨"clone refused"⟩ else .ok v
  merge repository own :=
    if own.contains '?' then .error ⟨"merge refused"⟩ else .ok (repository ++ "|" ++ own)

def ofName? : String → Option (Reconciler String)
  | "clone" => some plain
  | "join" => some joining
  | "tag" => some tagging
  | "fuse" => some fused
  | _ => none

theorem total_plain : (plain : Reconciler V).Total :=
  ⟨fun v => ⟨v, rfl⟩, fun _ w => ⟨w, rfl⟩⟩

theorem total_joining : joining.Total :=
  ⟨fun v => ⟨v, rfl⟩, fun v w => ⟨v ++ "|" ++ w, rfl⟩⟩

theorem total_tagging : tagging.Total :=
  ⟨fun v => ⟨v ++ "'", rfl⟩, fun v w => ⟨"(" ++ v ++ "," ++ w ++ ")", rfl⟩⟩

end Reconciler

end RevisionStore
