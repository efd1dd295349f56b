import RevisionStore.Roster

/-!
# Retention policies

A policy decides when a pass over the rosters runs and which rosters it gives up.
It sees the store as a `View`: the current revision and the bases of the open
working copies. `runs` is also told how many times the policy has been asked, this
time included, and `expires` how many times it has been asked so far and what time
it is; within these bounds the answers are arbitrary.

The current roster is never given up, whatever a policy answers: that is the
store's business, not the policy's.
-/

namespace RevisionStore

namespace Retention

structure View where
  current : Revision
  -- the bases of the open working copies, one for each of them
  active : List Revision
  deriving DecidableEq, Repr

def View.oldest? (view : View) : Option Revision :=
  view.active.min?

/-- When to run a pass and what to give up in it. -/
structure Policy (K : Type) where
  -- whether the pass runs for which the policy is asked as the `asked`-th time
  runs : (asked : Nat) → View → Bool
  -- whether to give up a roster, at time `now`
  expires : (asked : Nat) → (now : Nat) → View → Roster K → Bool

namespace Policy

variable {K : Type}

def never : Policy K where
  runs _ _ := false
  expires _ _ _ _ := false

/-- Every `every`-th pass runs (each one for `every = 0`) and gives up what lies
below the base of every open working copy, or everything if there is none. -/
def noLongerUsed (every : Nat) : Policy K where
  runs asked _ := asked % max every 1 == 0
  expires _ _ view roster :=
    match view.oldest? with
    | some oldest => roster.revision < oldest
    | none => true

/-- Every pass runs and gives up what is older than `ttl` milliseconds. A roster
from the future has no age. -/
def timeBased (ttl : Nat) : Policy K where
  runs _ _ := true
  expires _ now _ roster := ttl < now - roster.drawnAt

def select (run : Bool) (revisions : List Revision) : Policy K where
  runs _ _ := run
  expires _ _ _ roster := revisions.contains roster.revision

/-- Every pass runs and gives up what lies more than `n` revisions back. -/
def lag (n : Nat) : Policy K where
  runs _ _ := true
  expires _ _ view roster := n < view.current - roster.revision

/-- A pass runs while at most `n` working copies are open, and gives up everything. -/
def crowd (n : Nat) : Policy K where
  runs _ view := view.active.length ≤ n
  expires _ _ _ _ := true

/-- Every pass runs and gives up rosters of fewer than `n` keys. -/
def small (n : Nat) : Policy K where
  runs _ _ := true
  expires _ _ _ roster := roster.size < n

end Policy

/-! ## Policies as configuration -/

/-- A policy that can be written down in a configuration. -/
inductive Plan where
  | never
  | noLongerUsed (every : Nat)
  | timeBased (ttl : Nat)
  deriving DecidableEq, Repr

/-- The plan taken when none is given: give up unused revisions on every pass. -/
def Plan.standard : Plan := .noLongerUsed 1

def Plan.policy {K : Type} : Plan → Policy K
  | .never => .never
  | .noLongerUsed every => .noLongerUsed every
  | .timeBased ttl => .timeBased ttl

/-- The number that shapes a plan: between which passes one runs, or after how many
milliseconds a roster is given up. -/
def Plan.measure? : Plan → Option Nat
  | .never => none
  | .noLongerUsed every => some (max every 1)
  | .timeBased ttl => some ttl

end Retention

end RevisionStore
