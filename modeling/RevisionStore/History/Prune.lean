import RevisionStore.History

/-!
# Pruning a history

Pruning at a cut drops the changes at or below the cut that no longer matter. A
change matters if it is the most recent one or if a lookup at one of the
protected revisions answers with it. A history of which only a tombstone is left
says nothing that its absence would not say, so it is emptied.
-/

namespace RevisionStore

namespace History

variable {K V : Type}

/-- The revisions of the changes with which lookups at the protected revisions answer. -/
def observed (h : History K V) (rule : Lookup) (guarded : List Revision) : List Revision :=
  guarded.filterMap fun p => h.visibleRevision? rule p

/-- Whether a change at `r` no longer matters when the history is cut at `cut`. -/
def isDoomed (h : History K V) (rule : Lookup) (guarded : List Revision) (cut : Revision)
    (r : Revision) : Bool :=
  r ≤ cut && h.lastRevision? != some r && !(h.observed rule guarded).contains r

def thin (h : History K V) (rule : Lookup) (guarded : List Revision) (cut : Revision) :
    History K V :=
  h.keep fun c => !h.isDoomed rule guarded cut c.revision

def isLoneTombstone (h : History K V) : Bool :=
  h.changes.length == 1 && h.isDeletedAtHead

/-- Prune at `cut`; also answers how many changes were dropped. -/
def prune (h : History K V) (rule : Lookup) (guarded : List Revision) (cut : Revision) :
    History K V × Nat :=
  let thinned := h.thin rule guarded cut
  let dropped := (h.changes.filter fun c => h.isDoomed rule guarded cut c.revision).length
  if thinned.isLoneTombstone then (empty h.key, dropped + 1) else (thinned, dropped)

end History

end RevisionStore
