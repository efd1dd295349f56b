import RevisionStore.Dict
import RevisionStore.Error

/-!
# Value maps

A `ValueMap` holds the values of one revision together with the order of its keys.
-/

namespace RevisionStore

/-- The values of one revision. -/
structure ValueMap (K : Type) (V : Type) where
  revision : Revision
  -- the keys, in the order of the revision
  order : List K
  values : Dict K V

namespace ValueMap

variable {K V : Type} [DecidableEq K]

/-- The map of a list of pairs, whose order is kept. -/
def ofPairs (revision : Revision) (pairs : List (K × V)) : ValueMap K V :=
  ⟨revision, pairs.map Prod.fst, Dict.ofList pairs⟩

def get? (m : ValueMap K V) (k : K) : Option V :=
  m.values.get? k

def contains (m : ValueMap K V) (k : K) : Bool :=
  m.values.contains k

def size (m : ValueMap K V) : Nat :=
  m.order.length

def isEmpty (m : ValueMap K V) : Bool :=
  m.order.isEmpty

def toList (m : ValueMap K V) : List (K × V) :=
  m.order.filterMap fun k => (m.get? k).map fun v => (k, v)

/-- The pairs, in the order of their keys under `before`. -/
def sorted (m : ValueMap K V) (before : K → K → Bool) : List (K × V) :=
  m.values.entries.mergeSort fun a b => before a.1 b.1

end ValueMap

end RevisionStore
