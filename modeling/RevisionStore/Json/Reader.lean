import RevisionStore.Decimal
import RevisionStore.Json

/-!
# Reading JSON

The reader takes a list of characters apart from the front; every function answers
what it read and the rest. Blanks may stand around any token, nothing may follow
the document, numbers have no leading zeros, and controls inside strings have to be
escaped. Each value takes at least one character, so the length of the text bounds
the recursion.
-/

namespace RevisionStore

namespace Json

open Decimal (digitValue)

def isBlank (c : Char) : Bool :=
  c == ' ' || c == '\n' || c == '\r' || c == '\t'

def skipBlanks (cs : List Char) : List Char :=
  cs.dropWhile isBlank

def hexValue? (c : Char) : Option Nat :=
  if c.isDigit then some (digitValue c)
  else if 'a' ≤ c && c ≤ 'f' then some (c.toNat - 'a'.toNat + 10)
  else if 'A' ≤ c && c ≤ 'F' then some (c.toNat - 'A'.toNat + 10)
  else none

/-! ## Numbers -/

/-- The exponent of a number, `0` if there is none. -/
def readExponent : List Char → Option (Option Int × List Char)
  | [] => some (none, [])
  | c :: rest =>
    if c == 'e' || c == 'E' then
      let (minus, digits) :=
        match rest with
        | '-' :: more => (true, more)
        | '+' :: more => (false, more)
        | more => (false, more)
      match digits.takeWhile Char.isDigit with
      | [] => none
      | ds =>
        let n : Int := Decimal.ofDigits ds
        some (some (if minus then -n else n), digits.dropWhile Char.isDigit)
    else
      some (none, c :: rest)

/-- The digits after a decimal point, `none` if there is no point. -/
def readFraction : List Char → Option (Option (List Char) × List Char)
  | '.' :: rest =>
    match rest.takeWhile Char.isDigit with
    | [] => none
    | ds => some (some ds, rest.dropWhile Char.isDigit)
  | cs => some (none, cs)

/-- A number without its sign. Numbers that are not kept as whole numbers are scaled to
see whether they are finite. -/
def readMagnitude (isNegative : Bool) (cs : List Char) : Option (Json × List Char) := do
  let whole := cs.takeWhile Char.isDigit
  if whole.isEmpty || (1 < whole.length && whole.head? == some '0') then none
  let (fraction, cs) ← readFraction (cs.dropWhile Char.isDigit)
  let (exponent, cs) ← readExponent cs
  match fraction, exponent with
  | none, none =>
    let n := Decimal.ofDigits whole
    let limit := if isNegative then Nat.pow 2 63 + 1 else Nat.pow 2 64
    if n < limit && !(isNegative && n == 0) then
      some (if isNegative then .negative n else .natural n, cs)
    else
      some (.real (Decimal.Scaled.ofDigits whole [] 0).isFinite, cs)
  | _, _ =>
    some (.real (Decimal.Scaled.ofDigits whole (fraction.getD []) (exponent.getD 0)).isFinite, cs)

def readNumber : List Char → Option (Json × List Char)
  | '-' :: rest => readMagnitude true rest
  | cs => readMagnitude false cs

/-! ## Strings -/

def readHex4 : List Char → Option (Nat × List Char)
  | a :: b :: c :: d :: rest => do
    let a ← hexValue? a
    let b ← hexValue? b
    let c ← hexValue? c
    let d ← hexValue? d
    some (((a * 16 + b) * 16 + c) * 16 + d, rest)
  | _ => none

/-- Whether a code unit opens a surrogate pair. -/
def isLeading (u : Nat) : Bool :=
  0xD800 ≤ u && u < 0xDC00

/-- Whether a code unit closes a surrogate pair. -/
def isTrailing (u : Nat) : Bool :=
  0xDC00 ≤ u && u < 0xE000

/-- The character that is escaped by number after a backslash and `u`; the inner
`none` stands for a lone surrogate. -/
def readUnicode (cs : List Char) : Option (Option Char × List Char) := do
  let (u, rest) ← readHex4 cs
  if isLeading u then
    match rest with
    | '\\' :: 'u' :: more =>
      match readHex4 more with
      | some (v, after) =>
        if isTrailing v then
          some (some (Char.ofNat (0x10000 + (u - 0xD800) * 0x400 + (v - 0xDC00))), after)
        else
          some (none, rest)
      | none => none
    | _ => some (none, rest)
  else if isTrailing u then
    some (none, rest)
  else
    some (some (Char.ofNat u), rest)

def unescape? : Char → Option Char
  | '"' => some '"'
  | '\\' => some '\\'
  | '/' => some '/'
  | 'b' => some (Char.ofNat 8)
  | 'f' => some (Char.ofNat 12)
  | 'n' => some '\n'
  | 'r' => some '\r'
  | 't' => some '\t'
  | _ => none

/-- The rest of a string after its opening quote. `seen` has the characters read so
far, latest first, or `none` once a lone surrogate was met. -/
def readString : (fuel : Nat) → (seen : Option (List Char)) → List Char →
    Option (Option String × List Char)
  | 0, _, _ => none
  | _ + 1, _, [] => none
  | fuel + 1, seen, c :: rest =>
    if c = '"' then
      some (seen.map fun cs => String.ofList cs.reverse, rest)
    else if c = '\\' then
      match rest with
      | 'u' :: more =>
        match readUnicode more with
        | some (some u, after) => readString fuel (seen.map (u :: ·)) after
        | some (none, after) => readString fuel none after
        | none => none
      | e :: more =>
        match unescape? e with
        | some u => readString fuel (seen.map (u :: ·)) more
        | none => none
      | [] => none
    else if c.toNat < 32 then
      none
    else
      readString fuel (seen.map (c :: ·)) rest

def readQuoted : List Char → Option (Option String × List Char)
  | '"' :: rest => readString (rest.length + 1) (some []) rest
  | _ => none

/-! ## Documents -/

def readWord (word : List Char) (cs : List Char) : Option (List Char) :=
  if word.isPrefixOf cs then some (cs.drop word.length) else none

mutual

def readValue : (fuel : Nat) → List Char → Option (Json × List Char)
  | 0, _ => none
  | fuel + 1, cs =>
    match skipBlanks cs with
    | [] => none
    | c :: rest =>
      if c = '"' then
        (readQuoted (c :: rest)).map fun (t, after) => (.string t, after)
      else if c = '[' then
        match skipBlanks rest with
        | ']' :: after => some (.array [], after)
        | _ => readItems fuel [] rest
      else if c = '\x7b' then
        match skipBlanks rest with
        | '\x7d' :: after => some (.object [], after)
        | _ => readFields fuel [] rest
      else if c = 't' then
        (readWord ['t', 'r', 'u', 'e'] (c :: rest)).map fun after => (.bool true, after)
      else if c = 'f' then
        (readWord ['f', 'a', 'l', 's', 'e'] (c :: rest)).map fun after => (.bool false, after)
      else if c = 'n' then
        (readWord ['n', 'u', 'l', 'l'] (c :: rest)).map fun after => (.null, after)
      else
        readNumber (c :: rest)

/-- The items of an array that is not empty; `seen` are those read so far, latest first. -/
def readItems : (fuel : Nat) → (seen : List Json) → List Char → Option (Json × List Char)
  | 0, _, _ => none
  | fuel + 1, seen, cs =>
    match readValue fuel cs with
    | none => none
    | some (item, rest) =>
      match skipBlanks rest with
      | ',' :: more => readItems fuel (item :: seen) more
      | ']' :: after => some (.array (item :: seen).reverse, after)
      | _ => none

/-- The fields of an object that is not empty; `seen` are those read so far, latest first. -/
def readFields : (fuel : Nat) → (seen : List (Option String × Json)) → List Char →
    Option (Json × List Char)
  | 0, _, _ => none
  | fuel + 1, seen, cs =>
    match readQuoted (skipBlanks cs) with
    | none => none
    | some (name, rest) =>
      match skipBlanks rest with
      | ':' :: more =>
        match readValue fuel more with
        | none => none
        | some (value, after) =>
          match skipBlanks after with
          | ',' :: next => readFields fuel ((name, value) :: seen) next
          | '\x7d' :: last => some (.object ((name, value) :: seen).reverse, last)
          | _ => none
      | _ => none

end

/-- The document that a text writes, if it writes one and nothing else. -/
def parse? (t : String) : Option Json :=
  let cs := t.toList
  match readValue (2 * cs.length + 2) cs with
  | some (j, rest) => if (skipBlanks rest).isEmpty then some j else none
  | none => none

end Json

end RevisionStore
