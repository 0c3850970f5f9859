import LogQuery.Decimal.Power
import LogQuery.Text.Basic

/-!
# Decimal numbers

A number is a sign, a mantissa below 2^96 and a scale of at most 28: the mantissa
divided by ten to the scale. The scale is kept, so `2.50` and `2.5` are different
records of one value. Reading keeps every fraction digit that fits and rounds at the
first one that does not.
-/

namespace LogQuery

structure Decimal where
  negative : Bool
  mantissa : Nat
  scale : Nat
  deriving DecidableEq, Repr

namespace Decimal

def maxMantissa : Nat := twoTo 96 - 1

def maxScale : Nat := 28

/-- The number of this sign and size; zero has no sign. -/
def ofParts (negative : Bool) (mantissa scale : Nat) : Decimal :=
  ⟨negative && mantissa != 0, mantissa, scale⟩

def ofInt (n : Int) : Decimal := ⟨decide (n < 0), n.natAbs, 0⟩

def zero : Decimal := ofInt 0

def isZero (d : Decimal) : Bool := d.mantissa == 0

/-- Greater than zero. -/
def isPositive (d : Decimal) : Bool := !d.negative && !d.isZero

/-- The two records have one value. -/
def sameValue (a b : Decimal) : Bool :=
  a.mantissa * tenTo b.scale == b.mantissa * tenTo a.scale &&
    (a.negative == b.negative || a.isZero)

/-- Takes zeros off the end of a fraction of the given length. -/
def dropZeros : Nat → Nat → Nat × Nat
  | 0, m => (m, 0)
  | scale + 1, m => if m % 10 == 0 then dropZeros scale (m / 10) else (m, scale + 1)

/-- The same value with the shortest fraction. -/
def normalize (d : Decimal) : Decimal :=
  ofParts d.negative (dropZeros d.scale d.mantissa).1 (dropZeros d.scale d.mantissa).2

/-- The whole part, rounded toward zero. -/
def truncate (d : Decimal) : Int :=
  let n : Int := (d.mantissa / tenTo d.scale : Nat)
  if d.negative then -n else n

/-- Least and greatest number of a signed 64-bit word. -/
def wordMin : Int := -(twoTo 63 : Nat)

def wordMax : Int := (twoTo 63 - 1 : Nat)

/-- The whole part, when it fits a signed 64-bit word. -/
def toWord? (d : Decimal) : Option Int :=
  if wordMin ≤ d.truncate && d.truncate ≤ wordMax then some d.truncate else none

/-- The decimal digits of a natural number. -/
def natText (n : Nat) : Text := Nat.toDigits 10 n

/-- The decimal digits of an integer after its sign. -/
def intText (n : Int) : Text := if n < 0 then '-' :: natText n.natAbs else natText n.natAbs

/-- All digits with a point before the last `scale` of them and at least one digit
before the point. -/
def text (d : Decimal) : Text :=
  let digits := natText d.mantissa
  let padded := List.replicate (d.scale + 1 - digits.length) '0' ++ digits
  let whole := padded.take (padded.length - d.scale)
  let fraction := padded.drop (padded.length - d.scale)
  (if d.negative then ['-'] else []) ++ whole ++ if fraction.isEmpty then [] else '.' :: fraction

end Decimal

end LogQuery
