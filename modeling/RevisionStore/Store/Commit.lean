import RevisionStore.Store.Read
import RevisionStore.Draft

/-!
# Committing a draft

A commit turns the staged changes of a draft into the next revision. Added keys
must not be live, modified and removed keys must be; what counts is the state of
the store now, not at the draft's base. Every check and every call of the
reconciler comes before the first write, so a commit either publishes the whole
draft or leaves the store as it was.
-/

namespace RevisionStore

namespace Store

variable {K V : Type} [DecidableEq K]

/-- The staged changes of a draft, ready to be written: values cloned and merged. -/
structure Publication (K : Type) (V : Type) where
  added : List (K × V)
  modified : List (K × V)
  removed : List K
  -- the keys of the revision to come
  keys : List K

/-- Refuse a draft that adds a live key, or changes one that is not live. -/
def validate (s : Store K V) (d : Draft K V) : Except Failure Unit :=
  if d.added.any fun k => s.isLive k then
    .error (.rule (.addedKeyLive s.revision))
  else if (d.touched ++ d.removed).any fun k => !s.isLive k then
    .error (.rule (.changedKeyGone s.revision))
  else
    .ok ()

/-- The value to be written for an added key: a clone of the held one. -/
def addition (reconciler : Reconciler V) (d : Draft K V) (k : K) : Except Failure (K × V) :=
  match d.local? k with
  | none => .error (.rule (.noStagedValue .added))
  | some own => (reconciler.cloned own).map fun clone => (k, clone)

/-- The value to be written for a modified key: a clone of the store's value merged
with the held one. -/
def modification (s : Store K V) (reconciler : Reconciler V) (d : Draft K V) (k : K) :
    Except Failure (K × V) :=
  match d.local? k with
  | none => .error (.rule (.noStagedValue .modified))
  | some own =>
    match s.leading? k with
    | none => .error (.rule .noHeadValue)
    | some repository =>
      match reconciler.merged repository own with
      | .error failure => .error failure
      | .ok merged => (reconciler.cloned merged).map fun clone => (k, clone)

/-- Everything that a commit is going to write, or the first reason not to. -/
def prepare (s : Store K V) (reconciler : Reconciler V) (d : Draft K V) :
    Except Failure (Publication K V) :=
  match s.validate d with
  | .error failure => .error failure
  | .ok () =>
    match d.added.mapM (addition reconciler d) with
    | .error failure => .error failure
    | .ok added =>
      match d.touched.mapM (s.modification reconciler d) with
      | .error failure => .error failure
      | .ok modified =>
        match s.currentRoster with
        | .error failure => .error failure
        | .ok roster =>
          .ok ⟨added, modified, d.removed,
            roster.keys.filter (fun k => !d.isRemoved k) ++ d.added⟩

def recordAdded (next : Revision) (histories : Dict K (History K V)) (entry : K × V) :
    Dict K (History K V) :=
  let h := (histories.get? entry.1).getD (History.empty entry.1)
  histories.put entry.1 (h.recordAdded next entry.2)

/-- Record a modification at `next`, if the key has a history. -/
def recordModified (next : Revision) (histories : Dict K (History K V)) (entry : K × V) :
    Dict K (History K V) :=
  match histories.get? entry.1 with
  | some h => histories.put entry.1 (h.recordModified next entry.2)
  | none => histories

/-- Record a removal at `next`, if the key has a history. -/
def recordDeleted (next : Revision) (histories : Dict K (History K V)) (k : K) :
    Dict K (History K V) :=
  match histories.get? k with
  | some h => histories.put k (h.recordDeleted next)
  | none => histories

/-- Write the next revision, with a roster drawn up at `now`. -/
def publish (s : Store K V) (now : Nat) (p : Publication K V) : Store K V :=
  let next := s.revision + 1
  let withAdded := p.added.foldl (recordAdded next) s.histories
  let withModified := p.modified.foldl (recordModified next) withAdded
  { s with
    revision := next
    histories := p.removed.foldl (recordDeleted next) withModified
    rosters := s.rosters ++ [⟨next, now, p.keys⟩] }

/-- Commit a draft at time `now`; the new current revision is the store's. -/
def commit (s : Store K V) (reconciler : Reconciler V) (now : Nat) (d : Draft K V) :
    Except Failure (Store K V) :=
  (s.prepare reconciler d).map (s.publish now)

end Store

end RevisionStore
