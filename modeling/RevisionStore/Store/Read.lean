import RevisionStore.Store
import RevisionStore.Reconciler
import RevisionStore.ValueMap

/-!
# Reading a store

A retained roster has the last word on which keys exist at its revision. Without
one the key's history answers, and without a history the archive does. Resident
values leave the store as clones; values from the archive leave it as they are.
-/

namespace RevisionStore

namespace Store

variable {K V : Type} [DecidableEq K]

/-- The value of `k` at `r` where it lies, before cloning. -/
def visible (s : Store K V) (recollect : Recollection K V) (r : Revision) (k : K) :
    Except Failure (Option (Sighting V)) :=
  match s.checkRange r with
  | .error failure => .error failure
  | .ok () =>
    if (s.roster? r).any fun roster => !roster.contains k then
      .ok none
    else
      match s.histories.get? k with
      | some h => .ok (h.readAt s.lookup recollect r)
      | none => .ok (((recollect k r).bind (·.value?)).map .retrieved)

/-- A found value as it is given to a caller. -/
def handOut (reconciler : Reconciler V) : Sighting V → Except Failure V
  | .resident v => reconciler.cloned v
  | .retrieved v => .ok v

/-- The value of `k` at `r`, cloned. -/
def getAt (s : Store K V) (reconciler : Reconciler V) (recollect : Recollection K V)
    (r : Revision) (k : K) : Except Failure (Option V) :=
  match s.visible recollect r k with
  | .error failure => .error failure
  | .ok none => .ok none
  | .ok (some sighting) => (handOut reconciler sighting).map some

def get (s : Store K V) (reconciler : Reconciler V) (recollect : Recollection K V) (k : K) :
    Except Failure (Option V) :=
  s.getAt reconciler recollect s.revision k

def containsAt (s : Store K V) (recollect : Recollection K V) (r : Revision) (k : K) :
    Except Failure Bool :=
  (s.visible recollect r k).map (·.isSome)

def contains (s : Store K V) (recollect : Recollection K V) (k : K) : Except Failure Bool :=
  s.containsAt recollect s.revision k

def keys (s : Store K V) : Except Failure (List K) :=
  s.currentRoster.map (·.keys)

def size (s : Store K V) : Except Failure Nat :=
  s.currentRoster.map (·.size)

def keysAt (s : Store K V) (r : Revision) : Except Failure (List K) :=
  (s.rosterAt r).map (·.keys)

def historyRevisions (s : Store K V) (k : K) : List Revision :=
  ((s.histories.get? k).map (·.revisions)).getD []

def leading? (s : Store K V) (k : K) : Option V :=
  (s.histories.get? k).bind (·.leading?)

/-- Whether `k` has a history that does not end in a tombstone. -/
def isLive (s : Store K V) (k : K) : Bool :=
  (s.histories.get? k).any (·.isLive)

/-- The pairs of those of some keys that have a value now, in the order of the keys. -/
def currentPairs (s : Store K V) (reconciler : Reconciler V) (recollect : Recollection K V) :
    List K → Except Failure (List (K × V))
  | [] => .ok []
  | k :: rest =>
    match s.get reconciler recollect k with
    | .error failure => .error failure
    | .ok none => s.currentPairs reconciler recollect rest
    | .ok (some v) => (s.currentPairs reconciler recollect rest).map fun pairs => (k, v) :: pairs

def asMap (s : Store K V) (reconciler : Reconciler V) (recollect : Recollection K V) :
    Except Failure (ValueMap K V) :=
  match s.currentRoster with
  | .error failure => .error failure
  | .ok roster =>
    (s.currentPairs reconciler recollect roster.keys).map (ValueMap.ofPairs s.revision)

/-- Those of some keys that a roster lists and that end in a value, with clones of it. -/
def liveAmong (s : Store K V) (reconciler : Reconciler V) (roster : Roster K) :
    List K → Except Failure (List (K × V))
  | [] => .ok []
  | k :: rest =>
    match if roster.contains k then s.leading? k else none with
    | none => s.liveAmong reconciler roster rest
    | some v =>
      match reconciler.cloned v with
      | .error failure => .error failure
      | .ok clone => (s.liveAmong reconciler roster rest).map fun pairs => (k, clone) :: pairs

/-- Those of some keys that are live now, each with a clone of its current value. -/
def liveValues (s : Store K V) (reconciler : Reconciler V) (candidates : List K) :
    Except Failure (List (K × V)) :=
  match s.currentRoster with
  | .error failure => .error failure
  | .ok roster => s.liveAmong reconciler roster candidates

end Store

end RevisionStore
