import RevisionStore.Toml

/-!
# Building tables

A document is built from headers and assignments in the order in which they are
written. Headers and dotted keys lead to tables along paths, and the tables on the
way are made if they are missing. What is refused is everything that would define a
thing twice: a second header for a table, a key that has a value already, and dotted
keys that reach into a table from outside.
-/

namespace RevisionStore

namespace Toml

def field? (fs : Fields) (name : String) : Option Toml :=
  fs.lookup name

/-- Give a field a value, in its place if it is there already. -/
def setField (name : String) (value : Toml) : Fields → Fields
  | [] => [(name, value)]
  | (other, v) :: rest =>
    if other = name then (name, value) :: rest else (other, v) :: setField name value rest

/-- Work on the table to which a path leads, making tables that are missing on the way.
`byKey` tells a path of a dotted key from one of a header. -/
def atPath {α : Type} (byKey : Bool) (work : Origin → Fields → Option (α × Fields)) :
    (path : List String) → Origin → Fields → Option (α × Fields)
  | [], origin, fs => work origin fs
  | name :: path, _, fs =>
    match field? fs name with
    | none => do
      let made := if byKey then Origin.dotted else .implied
      let (a, inner) ← atPath byKey work path made []
      some (a, fs ++ [(name, .table made inner)])
    | some (.table found inner) =>
      if found = .inline || (byKey && found = .header) then none
      else do
        let (a, inner) ← atPath byKey work path found inner
        some (a, setField name (.table found inner) fs)
    | some (.tables items) =>
      match items.getLast? with
      | some (.table found inner) => do
        let (a, inner) ← atPath byKey work path found inner
        some (a, setField name (.tables (items.dropLast ++ [.table found inner])) fs)
      | _ => none
    | some _ => none

/-- Assign a value to a key that has none yet. A dotted key may only add to a table that
dotted keys have made, and a plain key never does. -/
def assign (path : List String) (name : String) (value : Toml) (origin : Origin) (fs : Fields) :
    Option Fields :=
  let work (reached : Origin) (fs : Fields) : Option (Unit × Fields) :=
    if (reached == .dotted) == path.isEmpty then none
    else
      match field? fs name with
      | none => some ((), fs ++ [(name, value)])
      | some _ => none
  (atPath true work path origin fs).map (·.2)

/-! ## Documents -/

/-- A document that is being written: everything up to the last header, and the table
under that header. -/
structure Draft where
  root : Fields
  -- the path of the last header, empty before the first one
  path : List String
  -- whether the last header has double brackets
  repeated : Bool
  current : Fields

def Draft.empty : Draft :=
  ⟨[], [], false, []⟩

/-- Put the table under the last header where it belongs. -/
def Draft.close (d : Draft) : Option Fields :=
  match d.path.getLast? with
  | none => some d.current
  | some name =>
    let table : Toml := .table .header d.current
    let work (_ : Origin) (fs : Fields) : Option (Unit × Fields) :=
      if d.repeated then
        match field? fs name with
        | none => some ((), fs ++ [(name, .tables [table])])
        | some (.tables items) => some ((), setField name (.tables (items ++ [table])) fs)
        | some _ => none
      else
        match field? fs name with
        | none => some ((), fs ++ [(name, table)])
        | some (.table .implied _) => some ((), setField name table fs)
        | some _ => none
    (atPath false work d.path.dropLast .header d.root).map (·.2)

/-- Begin the table under a header. A table that was only implied so far keeps what is in it. -/
def Draft.openTable (d : Draft) (path : List String) : Option Draft := do
  let root ← d.close
  let name ← path.getLast?
  let work (_ : Origin) (fs : Fields) : Option (Fields × Fields) :=
    match field? fs name with
    | none => some ([], fs)
    | some (.table .implied inner) => some (inner, fs.filter fun f => f.1 ≠ name)
    | some _ => none
  let (current, root) ← atPath false work path.dropLast .header root
  some ⟨root, path, false, current⟩

/-- Begin another table under a double-bracket header. -/
def Draft.openRepeated (d : Draft) (path : List String) : Option Draft := do
  let root ← d.close
  let name ← path.getLast?
  let work (_ : Origin) (fs : Fields) : Option (Unit × Fields) :=
    match field? fs name with
    | none => some ((), fs ++ [(name, .tables [])])
    | some (.tables _) => some ((), fs)
    | some _ => none
  let (_, root) ← atPath false work path.dropLast .header root
  some ⟨root, path, true, []⟩

def Draft.assign (d : Draft) (path : List String) (name : String) (value : Toml) :
    Option Draft := do
  let current ← Toml.assign path name value .header d.current
  some { d with current := current }

end Toml

end RevisionStore
