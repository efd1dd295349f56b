import RevisionStore.Dict
import RevisionStore.History
import RevisionStore.Roster
import RevisionStore.Retention.Policy

/-!
# The store

A `Store` is a timeline of revisions. It keeps one history per key, one roster per
retained revision, and a register of the working copies that are open, each with
the revision it was checked out at. This module has the data, the fresh store and
the register; reading, committing and expiry have modules of their own.

A store has no opinion about values and keeps nothing of its collaborators: the
reconciler, the archive and the policy come to each operation as arguments.
-/

namespace RevisionStore

/-- The number of a working copy, unique within its store. -/
structure CheckoutId where
  number : Nat
  deriving DecidableEq, Repr

def CheckoutId.label (id : CheckoutId) : String :=
  s!"wc-{id.number}"

/-- An open working copy, as the store knows it. -/
structure Registration where
  id : CheckoutId
  revision : Revision
  deriving DecidableEq, Repr

/-- A timeline of revisions. -/
structure Store (K : Type) (V : Type) where
  revision : Revision
  histories : Dict K (History K V)
  -- the retained rosters, in ascending order of revision
  rosters : List (Roster K)
  -- the open working copies, in order of checkout
  active : List Registration
  nextCheckout : Nat
  lookup : Lookup

namespace Store

variable {K V : Type}

/-- The empty store: revision `0`, drawn up at `now`, lists no key. -/
def fresh (lookup : Lookup) (now : Nat) : Store K V where
  revision := 0
  histories := .empty
  rosters := [⟨0, now, []⟩]
  active := []
  nextCheckout := 1
  lookup := lookup

/-- What a retention policy sees. -/
def view (s : Store K V) : Retention.View :=
  ⟨s.revision, s.active.map (·.revision)⟩

/-! ## Rosters -/

def roster? (s : Store K V) (r : Revision) : Option (Roster K) :=
  s.rosters.find? fun roster => roster.revision == r

/-- The retained revisions, ascending. -/
def retained (s : Store K V) : List Revision :=
  s.rosters.map (·.revision)

def currentRoster (s : Store K V) : Except Failure (Roster K) :=
  match s.roster? s.revision with
  | some roster => .ok roster
  | none => .error (.rule (.rosterMissing s.revision))

def checkRange (s : Store K V) (r : Revision) : Except Failure Unit :=
  if s.revision < r then .error (.refused (.outOfRange r (.beyond s.revision))) else .ok ()

/-- The roster of a revision, refused if it lies ahead or is no longer retained. -/
def rosterAt (s : Store K V) (r : Revision) : Except Failure (Roster K) :=
  match s.checkRange r with
  | .error failure => .error failure
  | .ok () =>
    match s.roster? r with
    | some roster => .ok roster
    | none => .error (.refused (.outOfRange r .expired))

/-! ## The register of working copies -/

/-- Register a working copy at the current revision; answers its number and its base. -/
def checkout (s : Store K V) : Except Failure ((CheckoutId × Roster K) × Store K V) :=
  match s.currentRoster with
  | .error failure => .error failure
  | .ok base =>
    let id : CheckoutId := ⟨s.nextCheckout⟩
    .ok ((id, base),
      { s with
        active := s.active ++ [⟨id, base.revision⟩]
        nextCheckout := s.nextCheckout + 1 })

/-- Strike a working copy off the register. -/
def release (s : Store K V) (id : CheckoutId) : Store K V :=
  { s with active := s.active.filter fun registration => registration.id ≠ id }

def describe (s : Store K V) : String :=
  s!"RootCache \x7b revision: {s.revision}, retained: {s.rosters.length}, " ++
  s!"histories: {s.histories.size}, active: {s.active.length}, lookup: {s.lookup.label} \x7d"

def describePoisoned : String :=
  "RootCache \x7b state: \"<locked>\" \x7d"

end Store

end RevisionStore
