import RevisionStore.Retention.Policy
import RevisionStore.Retention.Archive

/-!
# Keepers

A `Keeper` is what a store's retention is in the hands of: a `Warden`, which is a
policy together with the number of times it has been asked to run a pass, and an
archive. Stores can have either of the two in common; then they share the count, or
what the archive receives.
-/

namespace RevisionStore

namespace Retention

/-- A policy at work. -/
structure Warden (K : Type) where
  policy : Policy K
  -- how many times the policy has been asked whether a pass runs
  asked : Nat

namespace Warden

variable {K : Type}

def new (policy : Policy K) : Warden K :=
  ⟨policy, 0⟩

instance : Inhabited (Warden K) := ⟨new Plan.standard.policy⟩

/-- Ask whether a pass is to run; every question counts. -/
def ask (warden : Warden K) (view : View) : Bool × Warden K :=
  let asked := warden.asked + 1
  (warden.policy.runs asked view, { warden with asked := asked })

def expires (warden : Warden K) (now : Nat) (view : View) (roster : Roster K) : Bool :=
  warden.policy.expires warden.asked now view roster

end Warden

/-- A warden with an archive. -/
structure Keeper (K : Type) (V : Type) where
  warden : Warden K
  archive : Archive K V

namespace Keeper

variable {K V : Type}

def receive (keeper : Keeper K V) (rosters : List (Roster K)) : Keeper K V :=
  { keeper with archive := keeper.archive.receive rosters }

/-- Keepers show nothing of themselves. -/
def describe (_ : Keeper K V) : String :=
  "CacheExpiry \x7b .. \x7d"

end Keeper

end Retention

end RevisionStore
