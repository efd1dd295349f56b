import RevisionStore.Store
import RevisionStore.History.Prune
import RevisionStore.Retention.Keeper

/-!
# Expiry

A pass gives up rosters and prunes the histories of the keys they list. The keeper
says which rosters go, looking at the store as it was before the pass; the current
one stays in any case. The revisions that stay, the bases of open working copies
and the current revision are guarded: pruning leaves alone whatever a lookup at one
of them answers with. Rosters go in ascending order, and a history that is pruned
to nothing goes with them.
-/

namespace RevisionStore

namespace Store

variable {K V : Type} [DecidableEq K]

/-- The rosters that go if `expires` decides: never the current one. -/
def doomed (s : Store K V) (expires : Roster K → Bool) : List (Roster K) :=
  s.rosters.filter fun roster => roster.revision ≠ s.revision && expires roster

/-- Whether a revision is among those of some rosters. -/
def isAmong (gone : List (Roster K)) (r : Revision) : Bool :=
  gone.any fun roster => roster.revision == r

def guarded (s : Store K V) (gone : List (Roster K)) : List Revision :=
  (s.retained.filter fun r => !isAmong gone r) ++ s.active.map (·.revision) ++ [s.revision]

/-- Prune the history of one key at `cut`, and drop it if nothing is left. -/
def pruneKey (rule : Lookup) (guarded : List Revision) (cut : Revision)
    (histories : Dict K (History K V)) (k : K) : Dict K (History K V) :=
  match histories.get? k with
  | none => histories
  | some h =>
    let pruned := (h.prune rule guarded cut).1
    if pruned.isEmpty then histories.erase k else histories.put k pruned

/-- Prune the histories of the keys that a roster lists, at its revision. -/
def pruneRoster (rule : Lookup) (guarded : List Revision) (histories : Dict K (History K V))
    (roster : Roster K) : Dict K (History K V) :=
  roster.keys.foldl (pruneKey rule guarded roster.revision) histories

/-- Give up some rosters. -/
def sweep (s : Store K V) (gone : List (Roster K)) : Store K V :=
  { s with
    histories := gone.foldl (pruneRoster s.lookup (s.guarded gone)) s.histories
    rosters := s.rosters.filter fun roster => !isAmong gone roster.revision }

/-- Run a pass if the keeper wants one, and hand the rosters that go to its archive;
answers their number. -/
def expire (s : Store K V) (keeper : Retention.Keeper K V) (now : Nat) :
    Nat × Store K V × Retention.Keeper K V :=
  let (run, warden) := keeper.warden.ask s.view
  let keeper := { keeper with warden := warden }
  if run then
    let gone := s.doomed (warden.expires now s.view)
    (gone.length, s.sweep gone, keeper.receive gone)
  else
    (0, s, keeper)

end Store

end RevisionStore
