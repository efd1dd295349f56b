import RevisionStore.Error

/-!
# Changes

A `Change` records what happened to one key at one revision. The three makers
`added`, `modified` and `deleted` give a value exactly to the first two kinds; a
change read from outside may carry a value that disagrees with its kind, and
then the kind says whether it is a tombstone and the value says what is read.

Two changes are the same event (`sameEvent`) when key, revision and kind agree;
the value takes no part.
-/

namespace RevisionStore

/-- What happened to the key. -/
inductive ChangeKind where
  | added
  | modified
  | deleted
  deriving DecidableEq, Repr

/-- The name of a kind, as it is displayed and stored. -/
def ChangeKind.name : ChangeKind → String
  | .added => "Added"
  | .modified => "Modified"
  | .deleted => "Deleted"

/-- The kind of a given name, which has to match to the letter. -/
def ChangeKind.ofName? : String → Option ChangeKind
  | "Added" => some .added
  | "Modified" => some .modified
  | "Deleted" => some .deleted
  | _ => none

/-- One event in the life of a key. -/
structure Change (K : Type) (V : Type) where
  key : K
  value? : Option V
  kind : ChangeKind
  revision : Revision
  deriving DecidableEq, Repr

namespace Change

variable {K V : Type}

def added (key : K) (v : V) (revision : Revision) : Change K V :=
  ⟨key, some v, .added, revision⟩

def modified (key : K) (v : V) (revision : Revision) : Change K V :=
  ⟨key, some v, .modified, revision⟩

def deleted (key : K) (revision : Revision) : Change K V :=
  ⟨key, none, .deleted, revision⟩

/-- Whether the change records a removal. -/
def isTombstone (c : Change K V) : Bool :=
  c.kind == .deleted

/-- The recorded value, or the reason why there is none. -/
def value (c : Change K V) : Except ValueError V :=
  match c.value? with
  | some v => .ok v
  | none => .error (.tombstone c.revision)

def sameEvent [DecidableEq K] (a b : Change K V) : Bool :=
  a.revision == b.revision && a.kind == b.kind && a.key == b.key

/-- A change carries a value exactly when it is no tombstone. -/
def Coherent (c : Change K V) : Prop :=
  c.value?.isSome = !c.isTombstone

theorem coherent_added (key : K) (v : V) (r : Revision) : (added key v r).Coherent := rfl

theorem coherent_modified (key : K) (v : V) (r : Revision) : (modified key v r).Coherent := rfl

theorem coherent_deleted (key : K) (r : Revision) : (deleted key r : Change K V).Coherent := rfl

theorem Coherent.value?_eq_none {c : Change K V} (coherent : c.Coherent)
    (tombstone : c.isTombstone = true) : c.value? = none := by
  simpa [Coherent, tombstone] using coherent

theorem Coherent.exists_value? {c : Change K V} (coherent : c.Coherent)
    (kept : c.isTombstone = false) : ∃ v, c.value? = some v := by
  have filled : c.value?.isSome = true := by simpa [Coherent, kept] using coherent
  exact Option.isSome_iff_exists.1 filled

end Change

end RevisionStore
