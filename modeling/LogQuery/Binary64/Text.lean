import LogQuery.Binary64.Shortest
import LogQuery.Decimal.Basic

/-!
# Writing binary numbers

The shortest digits in two layouts: all digits in place, with no exponent however long
the text gets, and the layout of JSON, which keeps at least one digit behind the point
and writes very great and very small numbers with an exponent.
-/

namespace LogQuery.Binary64

def zeros (n : Nat) : Text := List.replicate n '0'

/-- The exponent of the digit in front. -/
def leadingExponent (d : Scaled) : Int := (Decimal.natText d.digits).length + d.exponent - 1

/-- The digits in place; `whole` goes behind a number without fraction. -/
def placeDigits (whole : Text) (d : Scaled) : Text :=
  let digits := Decimal.natText d.digits
  let before := leadingExponent d + 1
  if d.exponent ≥ 0 then digits ++ zeros d.exponent.toNat ++ whole
  else if before > 0 then digits.take before.toNat ++ '.' :: digits.drop before.toNat
  else "0." ++ zeros (-before).toNat ++ digits

/-- One digit, a point when there are more, and the exponent with its sign. -/
def scientificText (d : Scaled) : Text :=
  let e := leadingExponent d
  let mantissa := match Decimal.natText d.digits with
    | first :: second :: rest => first :: '.' :: second :: rest
    | digits => digits
  mantissa ++ 'e' :: (if e < 0 then '-' else '+') :: Decimal.natText e.natAbs

/-- All digits in place. -/
def plainText (x : Binary64) : Text := placeDigits [] (x.shortest .up)

/-- The layout of JSON. -/
def jsonText (x : Binary64) : Text :=
  let d := x.shortest .toEven
  if -5 ≤ leadingExponent d && leadingExponent d ≤ 15 then placeDigits ".0" d
  else scientificText d

end LogQuery.Binary64
