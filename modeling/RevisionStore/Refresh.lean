import RevisionStore.Error

/-!
# How a working copy is refreshed

`Refresh.Options` pair three switches, one per kind of staging, with exactly one
`Refresh.Mode`. Callers that collect loose booleans use `Refresh.Flags`, which
describe options only if exactly one of the three mode flags is set
(`Flags.isValid`).
-/

namespace RevisionStore

namespace Refresh

/-- What becomes of a modified key that is still live in the store. -/
inductive Mode where
  | merge
  | replace
  | ignore
  deriving DecidableEq, Repr

def Mode.name : Mode → String
  | .merge => "merge"
  | .replace => "replace"
  | .ignore => "ignore"

/-- The mode of a given name, which has to match to the letter. -/
def Mode.ofName? : String → Option Mode
  | "merge" => some .merge
  | "replace" => some .replace
  | "ignore" => some .ignore
  | _ => none

def Mode.standard : Mode := .merge

/-- Which stagings of a live key count as conflicts, and what to do with modified keys. -/
structure Options where
  failOnAdd : Bool
  failOnModify : Bool
  failOnRemove : Bool
  mode : Mode
  deriving DecidableEq, Repr

/-- Options under which nothing counts as a conflict. -/
def Options.lenient (mode : Mode) : Options :=
  ⟨false, false, false, mode⟩

/-- Options under which every staged key that is live counts as a conflict. -/
def Options.strict : Options :=
  ⟨true, true, true, .merge⟩

def Options.standard : Options :=
  .strict

structure Flags where
  failOnAdd : Bool := false
  failOnModify : Bool := false
  failOnRemove : Bool := false
  merge : Bool := false
  replace : Bool := false
  ignore : Bool := false
  deriving DecidableEq, Repr

/-- Exactly one of the mode flags is set. -/
def Flags.isValid (f : Flags) : Bool :=
  [f.merge, f.replace, f.ignore].count true == 1

/-- The refusal of flags that describe no options. -/
def Flags.refusal : ValueError :=
  .refreshOptions
    "exactly one of merge_on_update, replace_on_update or ignore_on_update must be set"

def Flags.toOptions (f : Flags) : Except ValueError Options :=
  if f.isValid then
    .ok ⟨f.failOnAdd, f.failOnModify, f.failOnRemove,
      if f.merge then .merge else if f.replace then .replace else .ignore⟩
  else
    .error Flags.refusal

def Options.toFlags (o : Options) : Flags :=
  ⟨o.failOnAdd, o.failOnModify, o.failOnRemove, o.mode == .merge, o.mode == .replace,
    o.mode == .ignore⟩

theorem Flags.isValid_toFlags (o : Options) : o.toFlags.isValid = true := by
  obtain ⟨_, _, _, mode⟩ := o
  cases mode <;> rfl

theorem Flags.toOptions_toFlags (o : Options) : o.toFlags.toOptions = .ok o := by
  obtain ⟨_, _, _, mode⟩ := o
  cases mode <;> rfl

end Refresh

end RevisionStore
