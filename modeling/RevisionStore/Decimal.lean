/-!
# Decimal numbers and double precision

Whole numbers are read as they are. Of all other numbers a document says no more
than whether double precision can express them, and there are two ways to tell:

* `Decimal.isFinite` is exact: the number, rounded once, is not infinite.
* `Decimal.Scaled.isFinite` works on a significand of sixty-four bits and a power of
  ten, each rounded to double precision, whose product is then rounded once more. It
  differs from the exact test only close to the end of the range.
-/

namespace RevisionStore

namespace Decimal

def digitValue (c : Char) : Nat :=
  c.toNat - '0'.toNat

/-- The number that is written by some digits and one more. -/
def push (n : Nat) (d : Char) : Nat :=
  10 * n + digitValue d

def ofDigits (ds : List Char) : Nat :=
  ds.foldl push 0

/-! ## Double precision -/

/-- The least number that is infinite in double precision: half a unit beyond the
greatest finite one, where the tie goes up. -/
def overflow : Nat :=
  Nat.pow 2 1024 - Nat.pow 2 970

def maxPower : Nat := 308

/-- The nearest whole number with at most fifty-three significant bits; a tie goes to
the one whose last bit is zero. -/
def round (n : Nat) : Nat :=
  let unit := Nat.pow 2 (n.log2 - 52)
  let below := n / unit
  let rest := n % unit
  if 2 * rest < unit || (2 * rest == unit && below % 2 == 0) then below * unit
  else (below + 1) * unit

/-- Whether `digits` times ten to the power of `exponent` lies in the range of double
precision. Numbers whose magnitude decides the matter are not computed. -/
def isFinite (digits : Nat) (exponent : Int) : Bool :=
  let magnitude : Int := (Nat.repr digits).length + exponent
  if digits = 0 || magnitude ≤ maxPower then true
  else if maxPower + 1 < magnitude then false
  else if 0 ≤ exponent then digits * Nat.pow 10 exponent.toNat < overflow
  else digits < overflow * Nat.pow 10 (-exponent).toNat

/-! ## Scaled numbers -/

/-- A number as a significand below `2 ^ 64` times a power of ten. -/
structure Scaled where
  significand : Nat
  exponent : Int
  deriving DecidableEq, Repr

namespace Scaled

/-- Take digits into a significand as long as they fit; answers those that are left. -/
def absorb (significand : Nat) : List Char → Nat × List Char
  | [] => (significand, [])
  | d :: rest =>
    if push significand d < Nat.pow 2 64 then absorb (push significand d) rest
    else (significand, d :: rest)

def ofDigits (whole places : List Char) (exponent : Int) : Scaled :=
  let (head, cut) := absorb 0 whole
  let (significand, left) := absorb head places
  ⟨significand, exponent + cut.length - (places.length - left.length : Nat)⟩

/-- Whether the number is finite when it is computed in double precision. A negative
power only makes it smaller. -/
def isFinite (x : Scaled) : Bool :=
  if x.significand = 0 || x.exponent < 0 then true
  else if maxPower < x.exponent then false
  else round x.significand * round (Nat.pow 10 x.exponent.toNat) < overflow

end Scaled

end Decimal

end RevisionStore
