import LogQuery.Decimal.Read
import LogQuery.Json.Basic

/-!
# Reading JSON numbers

The digits of a number are collected in a 64-bit word. An integer that fits is exact;
otherwise the word is made a binary64 number, which is multiplied or divided by a power of
ten. Digits that the word has no room for only count as powers of ten before the point
and do not count at all behind it.
-/

namespace LogQuery.Json

/-- The greatest number of an unsigned 64-bit word. -/
def maxWord : Nat := twoTo 64 - 1

/-- Puts digits behind a word as long as it has room: the word and the digits left over. -/
def collect (word : Nat) : Text → Nat × Text
  | [] => (word, [])
  | c :: cs =>
    let next := word * 10 + (c.toNat - '0'.toNat)
    if next ≤ maxWord then collect next cs else (word, c :: cs)

/-- A power of ten that is in range. -/
def powerOfTen (k : Nat) : Binary64 := (Binary64.ofNat? (tenTo k)).getD .zero

/-- The greatest power of ten in range. -/
def maxPower : Nat := 308

/-- Divides by ten to the `k`, by the greatest power in range first. The fuel bounds the
number of divisions. -/
def divideByPower (x : Binary64) (k : Nat) : Nat → Option Binary64
  | 0 => some x
  | fuel + 1 =>
    if k ≤ maxPower then x.div? (powerOfTen k)
    else if x.isZero then some x
    else (x.div? (powerOfTen maxPower)).bind fun y => divideByPower y (k - maxPower) fuel

/-- The binary number of a word and a power of ten, when it is in range. -/
def scaled? (word : Nat) (exponent : Int) : Option Binary64 := do
  let x ← Binary64.ofNat? word
  if exponent < 0 then divideByPower x exponent.natAbs exponent.natAbs
  else if x.isZero then some x
  else if exponent ≤ maxPower then x.mul? (powerOfTen exponent.toNat)
  else none

/-- The parts of a number text. -/
structure NumberParts where
  negative : Bool
  whole : Text
  fraction : Option Text
  exponent : Option Int

namespace NumberParts

/-- Digits at the start of a text, at least one. -/
def digits? (t : Text) : Option (Text × Text) :=
  let digits := t.takeWhile Char.isDigit
  if digits.isEmpty then none else some (digits, t.drop digits.length)

/-- The digits before the point: a zero alone, or digits that do not start with one. -/
def whole? (t : Text) : Option (Text × Text) := do
  let (digits, rest) ← digits? t
  if digits.head? == some '0' && digits.length > 1 then none else some (digits, rest)

/-- A fraction at the start of a text, if there is one. -/
def fraction? (t : Text) : Option (Option Text × Text) :=
  match t with
  | '.' :: rest => (digits? rest).map fun (digits, after) => (some digits, after)
  | _ => some (none, t)

/-- An exponent at the start of a text, if there is one. -/
def exponent? (t : Text) : Option (Option Int × Text) :=
  match t with
  | [] => some (none, [])
  | c :: cs =>
    if c == 'e' || c == 'E' then
      let (sign, rest) : Int × Text := match cs with
        | '-' :: rest => (-1, rest)
        | '+' :: rest => (1, rest)
        | rest => (1, rest)
      (digits? rest).map fun (digits, after) => (some (sign * Decimal.ofDigits digits), after)
    else some (none, t)

/-- Cuts a number off the start of a text. -/
def read? (t : Text) : Option (NumberParts × Text) := do
  let (negative, start) := match t with
    | '-' :: rest => (true, rest)
    | _ => (false, t)
  let (whole, afterWhole) ← whole? start
  let (fraction, afterFraction) ← fraction? afterWhole
  let (exponent, rest) ← exponent? afterFraction
  return ({ negative, whole, fraction, exponent }, rest)

/-- The value of a number with a fraction or an exponent, or one too long for a word. -/
def real (p : NumberParts) : Json :=
  let (start, left) := collect 0 p.whole
  let fraction := p.fraction.getD []
  let (word, unused) := collect start fraction
  let places : Int := left.length - (fraction.length - unused.length : Nat)
  match scaled? word (places + p.exponent.getD 0) with
  | some x => .real p.negative x
  | none => .unreadable

/-- The value of a number. -/
def value (p : NumberParts) : Json :=
  let n := Decimal.ofDigits p.whole
  if p.fraction.isSome || p.exponent.isSome || n > maxWord then p.real
  else if !p.negative then .integer n
  else if n = 0 || n > twoTo 63 then p.real
  else .integer (-n)

end NumberParts

end LogQuery.Json
