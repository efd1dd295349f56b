import RevisionStore.Toml.Table
import RevisionStore.Json.Reader

/-!
# Reading TOML

The reader works line by line: a header, an assignment, a comment or nothing. Like
the reader of JSON it takes a list of characters apart from the front. Lines end in
a line feed, which a carriage return may precede; other controls than the tab are
refused everywhere.
-/

namespace RevisionStore

namespace Toml

open Decimal (isFinite ofDigits)
open Json (hexValue? readWord)

/-! ## Blanks, comments and line ends -/

def isSpace (c : Char) : Bool :=
  c == ' ' || c == '\t'

def skipSpaces (cs : List Char) : List Char :=
  cs.dropWhile isSpace

def isPlain (c : Char) : Bool :=
  c == '\t' || (32 ≤ c.toNat && c.toNat ≠ 127)

def readNewline : List Char → Option (List Char)
  | '\n' :: rest => some rest
  | '\r' :: '\n' :: rest => some rest
  | _ => none

def skipComment : List Char → List Char
  | '#' :: rest => rest.dropWhile isPlain
  | cs => cs

/-- What may stand at the end of a line, and the line end or the end of the text. -/
def readLineEnd (cs : List Char) : Option (List Char) :=
  match skipComment (skipSpaces cs) with
  | [] => some []
  | rest => readNewline rest

/-- Pass over spaces, comments and line ends. A comment has to end in a line end. -/
def skipLines : (fuel : Nat) → List Char → List Char
  | 0, cs => cs
  | fuel + 1, cs =>
    let rest := skipSpaces cs
    match readNewline (skipComment rest) with
    | some after => skipLines fuel after
    | none => rest

/-- Pass over spaces and line ends. -/
def skipBlankLines (cs : List Char) : (fuel : Nat) → List Char
  | 0 => cs
  | fuel + 1 =>
    let rest := skipSpaces cs
    match readNewline rest with
    | some after => skipBlankLines after fuel
    | none => rest

/-! ## Strings -/

def readHex : (count : Nat) → (seen : Nat) → List Char → Option (Nat × List Char)
  | 0, seen, cs => some (seen, cs)
  | count + 1, seen, c :: rest => do
    let d ← hexValue? c
    readHex count (16 * seen + d) rest
  | _ + 1, _, [] => none

def isScalar (n : Nat) : Bool :=
  n < 0xD800 || (0xE000 ≤ n && n < 0x110000)

def readScalar (count : Nat) (cs : List Char) : Option (Char × List Char) := do
  let (n, rest) ← readHex count 0 cs
  if isScalar n then some (Char.ofNat n, rest) else none

def readEscape : List Char → Option (Char × List Char)
  | 'b' :: rest => some (Char.ofNat 8, rest)
  | 't' :: rest => some ('\t', rest)
  | 'n' :: rest => some ('\n', rest)
  | 'f' :: rest => some (Char.ofNat 12, rest)
  | 'r' :: rest => some ('\r', rest)
  | '"' :: rest => some ('"', rest)
  | '\\' :: rest => some ('\\', rest)
  | 'u' :: rest => readScalar 4 rest
  | 'U' :: rest => readScalar 8 rest
  | _ => none

/-- The rest of a string on one line; `seen` has its characters so far, latest first.
Escapes count only between double quotes. -/
def readLine (quote : Char) : (fuel : Nat) → (seen : List Char) → List Char →
    Option (String × List Char)
  | 0, _, _ => none
  | _ + 1, _, [] => none
  | fuel + 1, seen, c :: rest =>
    if c = quote then
      some (String.ofList seen.reverse, rest)
    else if c = '\\' && quote = '"' then
      match readEscape rest with
      | some (e, after) => readLine quote fuel (e :: seen) after
      | none => none
    else if isPlain c then
      readLine quote fuel (c :: seen) rest
    else
      none

/-- The rest of a string over several lines. Up to two quotes may stand before the
closing three, and belong to the string. -/
def readLongString (quote : Char) : (fuel : Nat) → (seen : List Char) → List Char →
    Option (String × List Char)
  | 0, _, _ => none
  | _ + 1, _, [] => none
  | fuel + 1, seen, c :: rest =>
    if c = quote then
      let run := ((c :: rest).takeWhile (· == quote)).length
      if run < 3 then
        readLongString quote fuel (c :: seen) rest
      else
        let own := min (run - 3) 2
        some (String.ofList (List.replicate own quote ++ seen).reverse,
          (c :: rest).drop (own + 3))
    else if c = '\\' && quote = '"' then
      match readNewline (skipSpaces rest) with
      | some after => readLongString quote fuel seen (skipBlankLines after after.length)
      | none =>
        match readEscape rest with
        | some (e, after) => readLongString quote fuel (e :: seen) after
        | none => none
    else
      match readNewline (c :: rest) with
      | some after => readLongString quote fuel ('\n' :: seen) after
      | none => if isPlain c then readLongString quote fuel (c :: seen) rest else none

def readShort : List Char → Option (String × List Char)
  | '"' :: rest => readLine '"' (rest.length + 1) [] rest
  | '\'' :: rest => readLine '\'' (rest.length + 1) [] rest
  | _ => none

/-- A string over several lines, after its three opening quotes. -/
def readLong (quote : Char) (cs : List Char) : Option (String × List Char) :=
  readLongString quote (cs.length + 1) [] ((readNewline cs).getD cs)

def readString : List Char → Option (String × List Char)
  | '"' :: '"' :: '"' :: rest => readLong '"' rest
  | '\'' :: '\'' :: '\'' :: rest => readLong '\'' rest
  | cs => readShort cs

/-! ## Keys -/

def isBare (c : Char) : Bool :=
  c.isAlphanum || c == '_' || c == '-'

def readPart (cs : List Char) : Option (String × List Char) :=
  match cs with
  | '"' :: _ => readShort cs
  | '\'' :: _ => readShort cs
  | _ =>
    match cs.takeWhile isBare with
    | [] => none
    | name => some (String.ofList name, cs.dropWhile isBare)

/-- The parts of a key, up to the first character that belongs to none. -/
def readParts : (fuel : Nat) → List Char → Option (List String × List Char)
  | 0, _ => none
  | fuel + 1, cs => do
    let (part, rest) ← readPart (skipSpaces cs)
    match skipSpaces rest with
    | '.' :: more =>
      let (parts, after) ← readParts fuel more
      some (part :: parts, after)
    | rest => some ([part], rest)

/-- How deep arrays, inline tables and dotted keys may go. -/
def depthLimit : Nat := 80

def readKey (cs : List Char) : Option (List String × List Char) := do
  let (parts, rest) ← readParts (cs.length + 1) cs
  if parts.length < depthLimit then some (parts, rest) else none

/-! ## Dates and times -/

/-- A number of exactly `count` digits, between two bounds. -/
def readDigits (count low high : Nat) (cs : List Char) : Option (Nat × List Char) :=
  let ds := cs.take count
  if ds.length = count && ds.all Char.isDigit then
    let n := ofDigits ds
    if low ≤ n && n ≤ high then some (n, cs.drop count) else none
  else
    none

def readChar (c : Char) : List Char → Option (List Char)
  | d :: rest => if c = d then some rest else none
  | [] => none

def daysIn (year month : Nat) : Nat :=
  if month = 2 then
    if year % 4 = 0 && (year % 100 ≠ 0 || year % 400 = 0) then 29 else 28
  else if month = 4 || month = 6 || month = 9 || month = 11 then 30
  else 31

def readDate (cs : List Char) : Option (List Char) := do
  let (year, cs) ← readDigits 4 0 9999 cs
  let cs ← readChar '-' cs
  let (month, cs) ← readDigits 2 1 12 cs
  let cs ← readChar '-' cs
  let (_, cs) ← readDigits 2 1 (daysIn year month) cs
  some cs

def readTime (cs : List Char) : Option (List Char) := do
  let (_, cs) ← readDigits 2 0 23 cs
  let cs ← readChar ':' cs
  let (_, cs) ← readDigits 2 0 59 cs
  let cs ← readChar ':' cs
  let (_, cs) ← readDigits 2 0 60 cs
  match cs with
  | '.' :: d :: rest =>
    if d.isDigit then some (rest.dropWhile Char.isDigit) else some cs
  | _ => some cs

/-- A distance from universal time, if there is one. -/
def readOffset : List Char → Option (List Char)
  | 'Z' :: rest => some rest
  | 'z' :: rest => some rest
  | c :: rest =>
    if c = '+' || c = '-' then do
      let (_, cs) ← readDigits 2 0 23 rest
      let cs ← readChar ':' cs
      let (_, cs) ← readDigits 2 0 59 cs
      some cs
    else
      some (c :: rest)
  | [] => some []

/-- A moment: a date, a time, or both, and then with an optional offset. -/
def readMoment (cs : List Char) : Option (List Char) :=
  match readDate cs with
  | some rest =>
    match rest with
    | c :: more =>
      if c = 'T' || c = 't' || c = ' ' then
        match readTime more with
        | some after => readOffset after
        | none => some rest
      else
        some rest
    | [] => some rest
  | none => readTime cs

/-! ## Numbers -/

/-- Digits of a given kind, between which single underscores may stand; answers the
digits alone. -/
def readRun (isDigit : Char → Bool) : (fuel : Nat) → List Char → Option (List Char × List Char)
  | 0, _ => none
  | _ + 1, [] => none
  | fuel + 1, c :: rest =>
    if isDigit c then
      match rest with
      | '_' :: more =>
        (readRun isDigit fuel more).map fun (ds, after) => (c :: ds, after)
      | d :: _ =>
        if isDigit d then (readRun isDigit fuel rest).map fun (ds, after) => (c :: ds, after)
        else some ([c], rest)
      | [] => some ([c], [])
    else
      none

/-- A whole number in a base other than ten, after its two-letter mark. -/
def readBased (base : Nat) (isDigit : Char → Bool) (cs : List Char) :
    Option (Toml × List Char) := do
  let (ds, rest) ← readRun isDigit (cs.length + 1) cs
  let n := ds.foldl (fun n d => base * n + (hexValue? d).getD 0) 0
  if n < Nat.pow 2 63 then some (.integer n, rest) else none

/-- The part of a number before any point: a lone zero, or digits that start with another one. -/
def readWhole : List Char → Option (List Char × List Char)
  | '0' :: rest => some (['0'], rest)
  | cs => readRun Char.isDigit (cs.length + 1) cs

def readPlaces : List Char → Option (Option (List Char) × List Char)
  | '.' :: rest =>
    (readRun Char.isDigit (rest.length + 1) rest).map fun (ds, after) => (some ds, after)
  | cs => some (none, cs)

def readPower : List Char → Option (Option Int × List Char)
  | [] => some (none, [])
  | c :: rest =>
    if c = 'e' || c = 'E' then
      let (minus, digits) :=
        match rest with
        | '-' :: more => (true, more)
        | '+' :: more => (false, more)
        | more => (false, more)
      (readRun Char.isDigit (digits.length + 1) digits).map fun (ds, after) =>
        let n : Int := ofDigits ds
        (some (if minus then -n else n), after)
    else
      some (none, c :: rest)

/-- A number in base ten without its sign. Whole numbers have sixty-four bits, the sign
among them; other numbers may be of any size, but none may be infinite by size alone. -/
def readPlainNumber (minus : Bool) (cs : List Char) : Option (Toml × List Char) := do
  let (whole, cs) ← readWhole cs
  let (places, cs) ← readPlaces cs
  let (power, cs) ← readPower cs
  match places, power with
  | none, none =>
    let n := ofDigits whole
    if minus then
      if n ≤ Nat.pow 2 63 then some (.integer (-n), cs) else none
    else
      if n < Nat.pow 2 63 then some (.integer n, cs) else none
  | _, _ =>
    let places := places.getD []
    if minus || isFinite (ofDigits (whole ++ places)) (power.getD 0 - places.length) then
      some (.float, cs)
    else
      none

/-- A number in base ten, or one of the two words that stand for a number. -/
def readUnsigned (minus : Bool) (cs : List Char) : Option (Toml × List Char) :=
  match readWord ['i', 'n', 'f'] cs with
  | some rest => some (.float, rest)
  | none =>
    match readWord ['n', 'a', 'n'] cs with
    | some rest => some (.float, rest)
    | none => readPlainNumber minus cs

def readNumber : List Char → Option (Toml × List Char)
  | '0' :: 'x' :: rest => readBased 16 (fun c => (hexValue? c).isSome) rest
  | '0' :: 'o' :: rest => readBased 8 (fun c => '0' ≤ c && c ≤ '7') rest
  | '0' :: 'b' :: rest => readBased 2 (fun c => c == '0' || c == '1') rest
  | '+' :: rest => readUnsigned false rest
  | '-' :: rest => readUnsigned true rest
  | cs => readUnsigned false cs

/-! ## Values -/

mutual

/-- A value. `room` levels of arrays and inline tables are left. -/
def readValue : (fuel room : Nat) → List Char → Option (Toml × List Char)
  | 0, _, _ => none
  | _ + 1, _, [] => none
  | fuel + 1, room, c :: rest =>
    if c = '"' || c = '\'' then
      (readString (c :: rest)).map fun (t, after) => (.string t, after)
    else if c = '[' then
      match room with
      | 0 => none
      | room + 1 => readItems fuel room [] rest
    else if c = '\x7b' then
      match room with
      | 0 => none
      | room + 1 =>
        match skipSpaces rest with
        | '\x7d' :: after => some (.table .inline [], after)
        | _ => readPairs fuel room [] rest
    else if c = 't' then
      (readWord ['t', 'r', 'u', 'e'] (c :: rest)).map fun after => (.boolean true, after)
    else if c = 'f' then
      (readWord ['f', 'a', 'l', 's', 'e'] (c :: rest)).map fun after => (.boolean false, after)
    else
      match readMoment (c :: rest) with
      | some after => some (.moment, after)
      | none => readNumber (c :: rest)

/-- The rest of an array; `seen` are its items so far, latest first. -/
def readItems : (fuel room : Nat) → (seen : List Toml) → List Char → Option (Toml × List Char)
  | 0, _, _, _ => none
  | fuel + 1, room, seen, cs =>
    match skipLines cs.length cs with
    | ']' :: after => some (.array seen.reverse, after)
    | cs =>
      match readValue fuel room cs with
      | none => none
      | some (item, rest) =>
        match skipLines rest.length rest with
        | ',' :: more => readItems fuel room (item :: seen) more
        | ']' :: after => some (.array (item :: seen).reverse, after)
        | _ => none

def readPairs : (fuel room : Nat) → (seen : Fields) → List Char → Option (Toml × List Char)
  | 0, _, _, _ => none
  | fuel + 1, room, seen, cs =>
    match readKey cs with
    | none => none
    | some (parts, rest) =>
      match readChar '=' rest, parts.getLast? with
      | some more, some name =>
        match readValue fuel room (skipSpaces more) with
        | none => none
        | some (value, after) =>
          match assign parts.dropLast name value .inline seen with
          | none => none
          | some fs =>
            match skipSpaces after with
            | ',' :: next => readPairs fuel room fs next
            | '\x7d' :: last => some (.table .inline fs, last)
            | _ => none
      | _, _ => none

end

/-! ## Documents -/

def readAssignment (d : Draft) (cs : List Char) : Option (Draft × List Char) := do
  let (parts, rest) ← readKey cs
  let rest ← readChar '=' rest
  let rest := skipSpaces rest
  let (value, rest) ← readValue (2 * rest.length + 2) (depthLimit - 1) rest
  let rest ← readLineEnd rest
  let name ← parts.getLast?
  let d ← d.assign parts.dropLast name value
  some (d, rest)

def readHeader (d : Draft) : List Char → Option (Draft × List Char)
  | '[' :: rest => do
    let (path, rest) ← readKey rest
    let rest ← readChar ']' rest
    let rest ← readChar ']' rest
    let rest ← readLineEnd rest
    some (← d.openRepeated path, rest)
  | rest => do
    let (path, rest) ← readKey rest
    let rest ← readChar ']' rest
    let rest ← readLineEnd rest
    some (← d.openTable path, rest)

def readLines : (fuel : Nat) → Draft → List Char → Option Draft
  | 0, _, _ => none
  | fuel + 1, d, cs =>
    match skipSpaces cs with
    | [] => some d
    | '#' :: rest => do
      let after ← readLineEnd ('#' :: rest)
      readLines fuel d after
    | '[' :: rest => do
      let (d, after) ← readHeader d rest
      readLines fuel d after
    | rest =>
      match readNewline rest with
      | some after => readLines fuel d after
      | none => do
        let (d, after) ← readAssignment d rest
        readLines fuel d after

/-- The document that a text writes. A byte order mark in front is passed over. -/
def parse? (t : String) : Option Toml := do
  let cs :=
    match t.toList with
    | '\ufeff' :: rest => rest
    | cs => cs
  let d ← readLines (cs.length + 1) .empty cs
  let fs ← d.close
  some (.table .header fs)

end Toml

end RevisionStore
