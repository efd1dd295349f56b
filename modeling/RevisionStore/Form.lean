import RevisionStore.Json
import RevisionStore.Change
import RevisionStore.Config
import RevisionStore.Refresh
import RevisionStore.Store

/-!
# Documents as values of the library

A form is how a value of the library is written as a document. Reading a form is
exact where it matters and tolerant where it does not: names are case-sensitive,
whole numbers have to be written as such and lie below `2 ^ 64`, a known field may
not be repeated, and unknown fields are passed over. A record may also be written
as the list of its fields in order.

A retention plan is a tagged form: the field `policy` says which fields are looked
for. Since the tag may come last, the other fields have to be readable in full; what
that takes depends on the document.
-/

namespace RevisionStore

namespace Form

open Retention (Plan)
open Refresh (Mode Options Flags)

/-! ## Atoms -/

def text? : Json → Option String
  | .string t? => t?
  | _ => none

def bool? : Json → Option Bool
  | .bool b => some b
  | _ => none

def natural? : Json → Option Nat
  | .natural n => some n
  | _ => none

def option? {α : Type} (form? : Json → Option α) : Json → Option (Option α)
  | .null => some none
  | j => (form? j).map some

def list? {α : Type} (form? : Json → Option α) : Json → Option (List α)
  | .array items => items.mapM form?
  | _ => none

/-- A name from a closed list. A name may also be written as an object whose only
field has that name and nothing to say, as `isUnit` judges. -/
def word? {α : Type} (isUnit : Json → Bool) (ofName? : String → Option α) : Json → Option α
  | .string t? => t?.bind ofName?
  | .object [(some name, payload)] => if isUnit payload then ofName? name else none
  | _ => none

def isNull : Json → Bool
  | .null => true
  | _ => false

def name? {α : Type} (ofName? : String → Option α) : Json → Option α :=
  word? isNull ofName?

/-! ## Records -/

/-- The only field of a given name: `some none` if there is none, `none` if there are several. -/
def single? (fs : List (Option String × Json)) (name : String) : Option (Option Json) :=
  match fs.filter fun f => f.1 == some name with
  | [] => some none
  | [f] => some (some f.2)
  | _ => none

/-- The values of a record with the given field names. A record written as a list has
all its fields, unless `short` lists are allowed. -/
def record? (names : List String) (short : Bool) : Json → Option (List (Option Json))
  | .object fs => if fs.all fun f => f.1.isSome then names.mapM (single? fs) else none
  | .array items =>
    if items.length = names.length || (short && items.length < names.length) then
      some (items.map some ++ List.replicate (names.length - items.length) none)
    else
      none
  | _ => none

/-- A field that may be missing, and then has a standard value. -/
def orElse? {α : Type} (standard : α) (form? : Json → Option α) : Option Json → Option α
  | some j => form? j
  | none => some standard

/-! ## Values of the library -/

def kind? : Json → Option ChangeKind :=
  name? ChangeKind.ofName?

def ofChange (c : Change String String) : Json :=
  .fields [("key", .text c.key), ("value", .optional .text c.value?),
    ("kind", .text c.kind.name), ("revision", .natural c.revision)]

/-- A change. A missing value is no value. -/
def change? (j : Json) : Option (Change String String) := do
  match ← record? ["key", "value", "kind", "revision"] false j with
  | [some key, value?, some kind, some revision] =>
    some ⟨← text? key, ← orElse? none (option? text?) value?, ← kind? kind, ← natural? revision⟩
  | _ => none

def mode? : Json → Option Mode :=
  name? Mode.ofName?

def ofOptions (o : Options) : Json :=
  .fields [("fail_on_add_conflict", .bool o.failOnAdd),
    ("fail_on_modify_conflict", .bool o.failOnModify),
    ("fail_on_remove_conflict", .bool o.failOnRemove), ("mode", .text o.mode.name)]

/-- Refresh options, all of whose fields are needed. -/
def options? (j : Json) : Option Options := do
  let names :=
    ["fail_on_add_conflict", "fail_on_modify_conflict", "fail_on_remove_conflict", "mode"]
  match ← record? names false j with
  | [some add, some modify, some remove, some mode] =>
    some ⟨← bool? add, ← bool? modify, ← bool? remove, ← mode? mode⟩
  | _ => none

def ofFlags (f : Flags) : Json :=
  .fields [("fail_on_add_conflict", .bool f.failOnAdd),
    ("fail_on_modify_conflict", .bool f.failOnModify),
    ("fail_on_remove_conflict", .bool f.failOnRemove), ("merge_on_update", .bool f.merge),
    ("replace_on_update", .bool f.replace), ("ignore_on_update", .bool f.ignore)]

/-- Refresh flags, none of whose fields is needed. -/
def flags? (j : Json) : Option Flags := do
  let names :=
    ["fail_on_add_conflict", "fail_on_modify_conflict", "fail_on_remove_conflict",
      "merge_on_update", "replace_on_update", "ignore_on_update"]
  match ← (← record? names true j).mapM (orElse? false bool?) with
  | [add, modify, remove, merge, replace, ignore] =>
    some ⟨add, modify, remove, merge, replace, ignore⟩
  | _ => none

def checkoutId? (j : Json) : Option CheckoutId :=
  (natural? j).map CheckoutId.mk

def ofRegistration (r : Registration) : Json :=
  .fields [("id", .natural r.id.number), ("revision", .natural r.revision)]

def registration? (j : Json) : Option Registration := do
  match ← record? ["id", "revision"] false j with
  | [some id, some revision] => some ⟨← checkoutId? id, ← natural? revision⟩
  | _ => none

/-! ## Retention plans -/

mutual

/-- Whether a document can be read in full, with at most `room` levels of nesting. -/
def isReadable (room : Nat) : Json → Bool
  | .string none => false
  | .real finite => finite
  | .array items =>
    match room with
    | 0 => false
    | room + 1 => areReadable room items
  | .object fs =>
    match room with
    | 0 => false
    | room + 1 => fieldsReadable room fs
  | _ => true

def areReadable (room : Nat) : List Json → Bool
  | [] => true
  | j :: rest => isReadable room j && areReadable room rest

def fieldsReadable (room : Nat) : List (Option String × Json) → Bool
  | [] => true
  | (name?, j) :: rest => name?.isSome && isReadable room j && fieldsReadable room rest

end

/-- The number of levels that a document may nest. -/
def depthLimit : Nat := 127

def policyName : Plan → String
  | .never => "never"
  | .noLongerUsed _ => "no_longer_used"
  | .timeBased _ => "time_based"

/-- The fields of a plan besides its policy. -/
def planFields : Plan → List (String × Nat)
  | .never => []
  | .noLongerUsed every => [("every", every)]
  | .timeBased ttl => [("ttl_ms", ttl)]

def ofPlan (p : Plan) : Json :=
  .fields (("policy", .text (policyName p)) ::
    (planFields p).map fun f => (f.1, .natural f.2))

/-- The plan of a given policy, whose field of a given name is looked up by `field?`. -/
def planOf? (policy : String) (field? : String → Option (Option Json)) : Option Plan :=
  match policy with
  | "never" => some .never
  | "no_longer_used" => do some (.noLongerUsed (← orElse? 1 natural? (← field? "every")))
  | "time_based" => do some (.timeBased (← (← field? "ttl_ms").bind natural?))
  | _ => none

/-- A retention plan all of which can be read, as `isLegible` judges. -/
def planWith? (isLegible : Json → Bool) (j : Json) : Option Plan :=
  if isLegible j then
    match j with
    | .object fs => do
      let policy ← text? (← (← single? fs "policy"))
      planOf? policy (single? fs)
    | .array (tag :: rest) => do
      let policy ← text? tag
      match policy, rest with
      | "never", _ :: _ => none
      | _, _ :: _ :: _ => none
      | _, _ => planOf? policy fun _ => some rest.head?
    | _ => none
  else
    none

def plan? : Json → Option Plan :=
  planWith? (isReadable depthLimit)

/-! ## Configurations -/

def ofConfig (c : Config) : Json :=
  .fields [("lookup", .text c.lookup.name), ("expiry", ofPlan c.plan)]

/-- A configuration, none of whose fields is needed. -/
def configWith? (isUnit isLegible : Json → Bool) (j : Json) : Option Config := do
  match ← record? ["lookup", "expiry"] true j with
  | [lookup?, plan?] =>
    some ⟨← orElse? Config.standard.lookup (word? isUnit Lookup.ofName?) lookup?,
      ← orElse? Config.standard.plan (planWith? isLegible) plan?⟩
  | _ => none

/-- A configuration in a document, whose plan lies one level deeper than the document. -/
def config? : Json → Option Config :=
  configWith? isNull (isReadable (depthLimit - 1))

end Form

end RevisionStore
