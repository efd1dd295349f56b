import RevisionStore.Json

/-!
# TOML documents

A `Toml` value is a document after reading. Tables remember how they came about
(`Toml.Origin`), because that decides what may still be added to them: a table with
a header of its own is complete, one that only stands on the way to another header
may get its own header later, one made by a dotted key may be extended by dotted
keys, and an inline table is closed.

Everything a document can say can also be said in JSON (`Toml.toJson`), and forms are
read from there.
-/

namespace RevisionStore

/-- How a table came about. -/
inductive Toml.Origin where
  -- written in braces
  | inline
  -- written under a header of its own, or the document itself
  | header
  -- named on the way to another table's header
  | implied
  -- named on the way to the last part of a dotted key
  | dotted
  deriving DecidableEq, Repr

/-- A TOML document. -/
inductive Toml where
  | string (t : String)
  | integer (n : Int)
  | float
  | boolean (b : Bool)
  | moment
  | array (items : List Toml)
  -- the tables written under repeated double-bracket headers
  | tables (items : List Toml)
  | table (origin : Toml.Origin) (fields : List (String × Toml))
  deriving Repr

namespace Toml

abbrev Fields := List (String × Toml)

mutual

/-- The same document in JSON. A moment is an object that no form asks for. -/
def toJson : Toml → Json
  | .string t => .text t
  | .integer n => if 0 ≤ n then .natural n.toNat else .negative (-n).toNat
  | .float => .real true
  | .boolean b => .bool b
  | .moment => .object [(some "moment", .null)]
  | .array items => .array (itemsToJson items)
  | .tables items => .array (itemsToJson items)
  | .table _ fs => .object (fieldsToJson fs)

def itemsToJson : List Toml → List Json
  | [] => []
  | item :: rest => toJson item :: itemsToJson rest

def fieldsToJson : List (String × Toml) → List (Option String × Json)
  | [] => []
  | (name, value) :: rest => (some name, toJson value) :: fieldsToJson rest

end

end Toml

end RevisionStore
