import LogQuery.Binary64.Text
import LogQuery.Decimal.Read

/-!
# Decimal and binary numbers

A decimal number becomes binary in two parts, the whole part and the fraction, whose sum
is then rounded to the decimal's own number of places. A binary number becomes decimal by
way of its shortest digits.
-/

namespace LogQuery.Decimal

/-- The binary number nearest to a natural that is in range, else zero. -/
def nearest (n : Nat) : Binary64 := (Binary64.ofNat? n).getD .zero

/-- The whole part plus the fraction, rounded to as many places as the scale has. -/
def joinParts (whole fraction unit : Binary64) : Option Binary64 := do
  let sum ← whole.add? fraction
  let scaled ← sum.mul? unit
  (← scaled.round?).div? unit

/-- The size of a decimal number as a binary number. -/
def toBinary (d : Decimal) : Binary64 :=
  let power := tenTo d.scale
  let unit := nearest power
  match (nearest (d.mantissa % power)).div? unit with
  | some fraction =>
    if fraction.isZero then nearest (d.mantissa / power)
    else (joinParts (nearest (d.mantissa / power)) fraction unit).getD .zero
  | none => .zero

/-- The decimal number of a binary one, when its digits are in range. -/
def ofBinary? (negative : Bool) (x : Binary64) : Option Decimal :=
  ofText? ((if negative then ['-'] else []) ++ x.plainText)

end LogQuery.Decimal
