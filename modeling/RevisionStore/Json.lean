/-!
# JSON documents

A `Json` value is a document as it was read, before anybody has asked for anything
in particular: objects keep their fields in order and may repeat a name, and
numbers are told apart by what they can be read as.

Two literals can be passed over but not read: a string that escapes a lone
surrogate, and a number beyond the range of double precision. They are kept as
such, so that a reader that has no use for the field can ignore it.
-/

namespace RevisionStore

inductive Json where
  | null
  | bool (b : Bool)
  -- a whole number written without sign, fraction or exponent, below `2 ^ 64`
  | natural (n : Nat)
  -- a negative whole number `-n` written without fraction or exponent
  | negative (n : Nat)
  -- any other number; `finite` if it stays in the range of double precision
  | real (finite : Bool)
  -- a string, or `none` for one with a lone surrogate in it
  | string (text? : Option String)
  | array (items : List Json)
  | object (fields : List (Option String × Json))
  deriving Repr

namespace Json

instance : Inhabited Json := ⟨.null⟩

def text (t : String) : Json :=
  .string (some t)

def fields (fs : List (String × Json)) : Json :=
  .object (fs.map fun f => (some f.1, f.2))

def texts (ts : List String) : Json :=
  .array (ts.map text)

def naturals (ns : List Nat) : Json :=
  .array (ns.map natural)

def optional {α : Type} (form : α → Json) : Option α → Json
  | some a => form a
  | none => .null

/-- The last field of a given name, if the document is an object that has one. -/
def field? (name : String) : Json → Option Json
  | .object fs => (fs.reverse.find? fun f => f.1 == some name).map (·.2)
  | _ => none

/-- The last field of a given name, where a missing field and `null` are the same. -/
def given? (name : String) (j : Json) : Option Json :=
  match j.field? name with
  | some .null => none
  | other => other

/-! ## Printing -/

def hexDigit (n : Nat) : Char :=
  Nat.digitChar n

/-- How a character is written inside a string. Quotes, backslashes and controls are
escaped, and nothing else. -/
def escapeChar (c : Char) : List Char :=
  if c = '"' then ['\\', '"']
  else if c = '\\' then ['\\', '\\']
  else if c = '\n' then ['\\', 'n']
  else if c = '\r' then ['\\', 'r']
  else if c = '\t' then ['\\', 't']
  else if c = Char.ofNat 8 then ['\\', 'b']
  else if c = Char.ofNat 12 then ['\\', 'f']
  else if c.toNat < 32 then
    ['\\', 'u', '0', '0', hexDigit (c.toNat / 16), hexDigit (c.toNat % 16)]
  else [c]

def quote (t : String) : String :=
  "\"" ++ String.ofList (t.toList.flatMap escapeChar) ++ "\""

mutual

/-- A document in compact form. What cannot be read cannot be printed either and
becomes `null`. -/
def print : Json → String
  | .null => "null"
  | .bool true => "true"
  | .bool false => "false"
  | .natural n => toString n
  | .negative n => "-" ++ toString n
  | .real _ => "null"
  | .string (some t) => quote t
  | .string none => "null"
  | .array items => "[" ++ ",".intercalate (printItems items) ++ "]"
  | .object fs => "\x7b" ++ ",".intercalate (printFields fs) ++ "\x7d"

def printItems : List Json → List String
  | [] => []
  | j :: rest => print j :: printItems rest

def printFields : List (Option String × Json) → List String
  | [] => []
  | (name?, j) :: rest => (quote (name?.getD "") ++ ":" ++ print j) :: printFields rest

end

end Json

end RevisionStore
