import RevisionStore.Change

/-!
# The history of one key

A `History` is the list of changes of one key, in strictly ascending order of
revision. Recording at a revision that is there already overwrites it, so the
history is a function of the changes still in the log and not of the order in
which they came.

A lookup at a revision first wants a change recorded exactly there. Without one
the `Lookup` rule picks among the earlier changes, and when there is no earlier
change either the question goes to an archive (`Recollection`). A tombstone answers
that there is no value; it never sends the question on.
-/

namespace RevisionStore

/-- The rule that picks among the changes recorded before a revision. -/
inductive Lookup where
  -- the oldest earlier change answers, however often the key changed since
  | earliestPrior
  -- the newest earlier change answers
  | latestPrior
  deriving DecidableEq, Repr

def Lookup.label : Lookup → String
  | .earliestPrior => "EarliestPrior"
  | .latestPrior => "LatestPrior"

/-- The name of a lookup rule, as it is stored. -/
def Lookup.name : Lookup → String
  | .earliestPrior => "earliest_prior"
  | .latestPrior => "latest_prior"

/-- The lookup rule of a given name, which has to match to the letter. -/
def Lookup.ofName? : String → Option Lookup
  | "earliest_prior" => some .earliestPrior
  | "latest_prior" => some .latestPrior
  | _ => none

/-- What an archive remembers of a key at a revision. -/
abbrev Recollection (K : Type) (V : Type) := K → Revision → Option (Change K V)

/-- A value that a lookup found, with the place where it was found. -/
inductive Sighting (V : Type) where
  -- the value is the store's own: callers get a clone of it
  | resident (v : V)
  -- the value came back from an archive and is handed on as it is
  | retrieved (v : V)
  deriving DecidableEq, Repr

def Sighting.value {V : Type} : Sighting V → V
  | .resident v => v
  | .retrieved v => v

/-- The changes of one key, in strictly ascending order of revision. -/
structure History (K : Type) (V : Type) where
  key : K
  changes : List (Change K V)
  ascending : changes.Pairwise fun a b => a.revision < b.revision

namespace History

variable {K V : Type}

def empty (key : K) : History K V :=
  ⟨key, [], .nil⟩

/-! ## Recording -/

/-- Put a change in its place, overwriting the one at the same revision. -/
def place (c : Change K V) (changes : List (Change K V)) : List (Change K V) :=
  changes.filter (fun d => d.revision < c.revision) ++
    c :: changes.filter (fun d => c.revision < d.revision)

theorem ascending_place (c : Change K V) {changes : List (Change K V)}
    (h : changes.Pairwise fun a b => a.revision < b.revision) :
    (place c changes).Pairwise fun a b => a.revision < b.revision := by
  refine List.pairwise_append.2 ⟨h.filter _, ?_, ?_⟩
  · refine List.pairwise_cons.2 ⟨fun d hd => ?_, h.filter _⟩
    simpa using (List.mem_filter.1 hd).2
  · intro a ha b hb
    have before : a.revision < c.revision := by simpa using (List.mem_filter.1 ha).2
    rcases List.mem_cons.1 hb with rfl | hb
    · exact before
    · have after : c.revision < b.revision := by simpa using (List.mem_filter.1 hb).2
      exact Nat.lt_trans before after

def insert (h : History K V) (c : Change K V) : History K V :=
  ⟨h.key, place c h.changes, ascending_place c h.ascending⟩

def recordAdded (h : History K V) (r : Revision) (v : V) : History K V :=
  h.insert (.added h.key v r)

def recordModified (h : History K V) (r : Revision) (v : V) : History K V :=
  h.insert (.modified h.key v r)

def recordDeleted (h : History K V) (r : Revision) : History K V :=
  h.insert (.deleted h.key r)

def keep (h : History K V) (p : Change K V → Bool) : History K V :=
  ⟨h.key, h.changes.filter p, h.ascending.filter p⟩

/-! ## The most recent change -/

def head? (h : History K V) : Option (Change K V) :=
  h.changes.getLast?

/-- The value of the most recent change, if it has one. -/
def leading? (h : History K V) : Option V :=
  h.head?.bind (·.value?)

/-- Whether the most recent change is a tombstone. -/
def isDeletedAtHead (h : History K V) : Bool :=
  h.head?.any (·.isTombstone)

def lastRevision? (h : History K V) : Option Revision :=
  h.head?.map (·.revision)

/-- Whether the key is live: it has a history that does not end in a tombstone. -/
def isLive (h : History K V) : Bool :=
  !h.isDeletedAtHead

/-! ## Lookup -/

/-- The change recorded exactly at `r`. -/
def changeAt? (h : History K V) (r : Revision) : Option (Change K V) :=
  h.changes.find? fun c => c.revision == r

/-- The change among those before `r` that the lookup rule picks. -/
def prior? (h : History K V) (rule : Lookup) (r : Revision) : Option (Change K V) :=
  match rule with
  | .earliestPrior => h.changes.find? fun c => c.revision < r
  | .latestPrior => h.changes.findRev? fun c => c.revision < r

/-- The change that answers a lookup at `r`. -/
def select? (h : History K V) (rule : Lookup) (r : Revision) : Option (Change K V) :=
  h.changeAt? r <|> h.prior? rule r

def visibleRevision? (h : History K V) (rule : Lookup) (r : Revision) : Option Revision :=
  (h.select? rule r).map (·.revision)

/-- The value visible at `r`; `recollect` is asked when no change answers. -/
def readAt (h : History K V) (rule : Lookup) (recollect : Recollection K V) (r : Revision) :
    Option (Sighting V) :=
  match h.select? rule r with
  | some c => c.value?.map .resident
  | none => ((recollect h.key r).bind (·.value?)).map .retrieved

/-! ## Whole histories -/

def containsRevision (h : History K V) (r : Revision) : Bool :=
  (h.changeAt? r).isSome

def length (h : History K V) : Nat :=
  h.changes.length

def isEmpty (h : History K V) : Bool :=
  h.changes.isEmpty

def revisions (h : History K V) : List Revision :=
  h.changes.map (·.revision)

/-- Forget the changes at the listed revisions; also answers how many there were. -/
def removeRevisions (h : History K V) (rs : List Revision) : History K V × Nat :=
  let kept := h.keep fun c => !rs.contains c.revision
  (kept, (h.changes.filter fun c => rs.contains c.revision).length)

end History

end RevisionStore
