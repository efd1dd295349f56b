import RevisionStore.Dict
import RevisionStore.Roster

/-!
# Snapshots

A `Snapshot` is a read-only look at the revision at which it was taken. The store
does not know about it, so it holds nothing back: once its revision is given up,
keys that it has not read yet may be out of reach.
-/

namespace RevisionStore

/-- A read-only look at one revision. -/
structure Snapshot (K : Type) (V : Type) where
  base : Roster K
  -- the values read so far
  fetched : Dict K V

namespace Snapshot

variable {K V : Type} [DecidableEq K]

def new (base : Roster K) : Snapshot K V :=
  ⟨base, .empty⟩

def revision (x : Snapshot K V) : Revision :=
  x.base.revision

/-- Read `k`, which is fetched from the store once and kept from then on. -/
def read (x : Snapshot K V) (fetch : K → Except Failure (Option V)) (k : K) :
    Except Failure (Option V × Snapshot K V) :=
  if x.base.contains k then
    match x.fetched.get? k with
    | some v => .ok (some v, x)
    | none =>
      match fetch k with
      | .error failure => .error failure
      | .ok none => .error (.rule (.valueLost x.revision))
      | .ok (some v) => .ok (some v, { x with fetched := x.fetched.put k v })
  else
    .ok (none, x)

def describe (x : Snapshot K V) : String :=
  s!"ReadOnlyCopy \x7b revision: {x.revision}, size: {x.base.size}, cached: {x.fetched.size} \x7d"

end Snapshot

end RevisionStore
