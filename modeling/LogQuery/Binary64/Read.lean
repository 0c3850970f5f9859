import LogQuery.Binary64.Basic
import LogQuery.Decimal.Read

/-!
# Comparing number texts

A number text is an optional sign before digits with an optional point and an optional
exponent, or before one of the words `inf`, `infinity` and `nan` in any case. Texts are
compared by the binary64 number nearest to them, which is given by its place in the order
of all numbers.
-/

namespace LogQuery.Binary64

/-- The place of infinity, above that of every number. -/
def infinityRank : Nat := twoTo 64

/-- The place of the number nearest to `digits * 10 ^ exponent`, given how many digits
there are. Numbers far out of range are decided by their size alone. -/
def rankOfScaled (digits length : Nat) (exponent : Int) : Nat :=
  if digits = 0 || length + exponent < -330 then zero.rank
  else if length + exponent > 310 then infinityRank
  else
    match ofFraction? (digits * tenTo exponent.toNat) (tenTo (-exponent).toNat) with
    | some x => x.rank
    | none => infinityRank

/-- The exponent at the end of a number text, zero when there is none. -/
def exponentOfText? : Text → Option Int
  | [] => some 0
  | c :: cs =>
    if c == 'e' || c == 'E' then
      let (sign, digits) : Int × Text := match cs with
        | '-' :: rest => (-1, rest)
        | '+' :: rest => (1, rest)
        | rest => (1, rest)
      if digits.isEmpty || !digits.all Char.isDigit then none
      else some (sign * Decimal.ofDigits digits)
    else none

/-- The place of a number without sign. -/
def rankOfDigits? (t : Text) : Option Nat := do
  let whole := t.takeWhile Char.isDigit
  let (fraction, rest) : Text × Text := match t.drop whole.length with
    | '.' :: after => (after.takeWhile Char.isDigit, after.dropWhile Char.isDigit)
    | after => ([], after)
  if whole.isEmpty && fraction.isEmpty then none
  else
    let exponent ← exponentOfText? rest
    let digits := (whole ++ fraction).dropWhile (· == '0')
    some (rankOfScaled (Decimal.ofDigits digits) digits.length (exponent - fraction.length))

/-- What a number text says: a place in the order of numbers, or no number. -/
inductive Reading
  | place (n : Int)
  | notANumber
  deriving DecidableEq, Repr

/-- Reads a number text. -/
def Reading.ofText? (t : Text) : Option Reading :=
  let (sign, rest) : Int × Text := match t with
    | '-' :: cs => (-1, cs)
    | '+' :: cs => (1, cs)
    | cs => (1, cs)
  let word : Text := rest.map Char.toLower
  if word.isOneOf ["inf", "infinity"] then some (.place (sign * infinityRank))
  else if word == ("nan" : Text) then some .notANumber
  else (rankOfDigits? rest).map fun rank => .place (sign * rank)

/-- Smaller, both being numbers. -/
def Reading.isBelow : Reading → Reading → Bool
  | place a, place b => a < b
  | _, _ => false

end LogQuery.Binary64
