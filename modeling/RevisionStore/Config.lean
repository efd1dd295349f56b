import RevisionStore.History
import RevisionStore.Retention.Policy

/-!
# Store configuration

What can be said about a store in a configuration document: its lookup rule and its
retention plan. Each has a standard value, taken when the document is silent.
-/

namespace RevisionStore

structure Config where
  lookup : Lookup
  plan : Retention.Plan
  deriving DecidableEq, Repr

/-- The configuration of which a document says nothing. -/
def Config.standard : Config :=
  ⟨.earliestPrior, .standard⟩

end RevisionStore
