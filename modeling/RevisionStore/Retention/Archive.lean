import RevisionStore.History
import RevisionStore.Roster

/-!
# Archives

Rosters that a pass gives up go to an archive, and lookups that no resident change
answers are put to it. An archive keeps what it was handed, in order, since it was
last drained; what it recalls is its own affair.
-/

namespace RevisionStore

namespace Retention

inductive ArchiveRole where
  -- nobody looks at it again
  | discarding
  -- it records what it was handed, and can be drained
  | recording
  -- it answers lookups from a table of changes
  | recalling
  deriving DecidableEq, Repr

/-- Where rosters go when they are given up. -/
structure Archive (K : Type) (V : Type) where
  role : ArchiveRole
  recollect : Recollection K V
  -- the rosters handed over since the last drain, oldest first
  received : List (Roster K)

namespace Archive

variable {K V : Type}

def discarding : Archive K V :=
  ⟨.discarding, fun _ _ => none, []⟩

/-- An archive that recalls nothing and records what it is handed. -/
def recording : Archive K V :=
  ⟨.recording, fun _ _ => none, []⟩

/-- An archive that recalls the first change of a table with the key and revision asked for. -/
def ofTable [DecidableEq K] (table : List (Change K V)) : Archive K V :=
  ⟨.recalling, fun k r => table.find? fun c => c.key == k && c.revision == r, []⟩

instance : Inhabited (Archive K V) := ⟨discarding⟩

def receive (a : Archive K V) (rosters : List (Roster K)) : Archive K V :=
  { a with received := a.received ++ rosters }

def drain (a : Archive K V) : List (Roster K) × Archive K V :=
  (a.received, { a with received := [] })

def describe (a : Archive K V) : String :=
  s!"RecordingSink \x7b expired: {a.received.length} \x7d"

end Archive

end Retention

end RevisionStore
