import RevisionStore.Error

/-!
# Rosters

A `Roster` is the list of keys that are live at one revision, in the order in
which they entered the store, with the time at which it was drawn up. It is made
once per commit and never changed. Rosters stand for their revision: two rosters
of one revision are `same` whatever they list.
-/

namespace RevisionStore

/-- The keys live at a revision. -/
structure Roster (K : Type) where
  revision : Revision
  -- milliseconds since the epoch at which the roster was drawn up
  drawnAt : Nat
  keys : List K
  deriving DecidableEq, Repr

namespace Roster

variable {K : Type}

/-- A roster for `revision` with the keys of another one, drawn up at `now`. -/
def derived (revision : Revision) (now : Nat) (other : Roster K) : Roster K :=
  ⟨revision, now, other.keys⟩

def contains [DecidableEq K] (roster : Roster K) (k : K) : Bool :=
  k ∈ roster.keys

/-- The number of listed keys, counting repetitions. -/
def size (roster : Roster K) : Nat :=
  roster.keys.length

def isEmpty (roster : Roster K) : Bool :=
  roster.keys.isEmpty

/-- Whether two rosters stand for the same revision. -/
def same (a b : Roster K) : Bool :=
  a.revision == b.revision

def describe (roster : Roster K) : String :=
  s!"RevisionKeySet \x7b revision: {roster.revision}, " ++
    s!"timestamp_ms: {roster.drawnAt}, size: {roster.size} \x7d"

@[simp] theorem contains_iff [DecidableEq K] {roster : Roster K} {k : K} :
    roster.contains k = true ↔ k ∈ roster.keys := by
  simp [contains]

end Roster

end RevisionStore
