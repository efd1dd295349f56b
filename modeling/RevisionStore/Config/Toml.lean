import RevisionStore.Form
import RevisionStore.Toml.Reader

/-!
# Configurations in TOML

A configuration is written as one assignment and one table. Whole numbers in TOML
have sixty-four bits with the sign among them, so a plan with a larger number has
no document.
-/

namespace RevisionStore

namespace Config

/-- A table without fields, or an array without items: what stands beside a name that is
written as a table and has nothing to say. -/
def isVoid : Json → Bool
  | .object fs => fs.isEmpty
  | .array items => items.isEmpty
  | _ => false

/-- The configuration that a document describes. A TOML document that was read has been
read in full, however deep it nests. -/
def ofToml? (document : String) : Option Config := do
  Form.configWith? isVoid (fun _ => true) (← Toml.parse? document).toJson

def assignment (name value : String) : String :=
  name ++ " = " ++ value ++ "\n"

/-- The document of a configuration, if all its numbers can be written. -/
def toToml? (c : Config) : Option String :=
  let numbers := Form.planFields c.plan
  if numbers.all fun f => f.2 < Nat.pow 2 63 then
    some (assignment "lookup" (Json.quote c.lookup.name) ++ "\n[expiry]\n" ++
      assignment "policy" (Json.quote (Form.policyName c.plan)) ++
      String.join (numbers.map fun f => assignment f.1 (toString f.2)))
  else
    none

end Config

end RevisionStore
