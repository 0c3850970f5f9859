import LogQuery.Decimal.Power

/-!
# Binary floating point

Finite binary64 numbers without a sign, as a mantissa below 2^53 and a power of two.
Every number has one record: the mantissa is at least 2^52 unless the exponent is the
least one. All arithmetic is exact on fractions of naturals and rounds once, to the
nearest number and to the even mantissa in the middle.
-/

namespace LogQuery

/-- The number `mantissa * 2 ^ exponent`. -/
structure Binary64 where
  mantissa : Nat
  exponent : Int
  deriving DecidableEq, Repr

namespace Binary64

def minExponent : Int := -1074

def maxExponent : Int := 971

def zero : Binary64 := ⟨0, minExponent⟩

def isZero (x : Binary64) : Bool := x.mantissa == 0

/-- The number as a fraction. -/
def num (x : Binary64) : Nat := x.mantissa * twoTo x.exponent.toNat

def den (x : Binary64) : Nat := twoTo (-x.exponent).toNat

/-- A position in the order of the numbers: greater for the greater number. -/
def rank (x : Binary64) : Nat := (x.exponent - minExponent).toNat * twoTo 53 + x.mantissa

/-- A quotient rounded to the nearest natural, to the even one in the middle. -/
def roundEven (num den : Nat) : Nat :=
  let q := num / den
  let r := num % den
  if 2 * r < den then q
  else if 2 * r = den then q + q % 2
  else q + 1

/-- The least exponent for which the fraction has a mantissa below 2^53, or one less. -/
def exponentBelow (num den : Nat) : Int := (Nat.log2 num : Int) - Nat.log2 den - 53

/-- The fraction in units of `2 ^ exponent`, rounded. -/
def mantissaAt (num den : Nat) (exponent : Int) : Nat :=
  roundEven (num * twoTo (-exponent).toNat) (den * twoTo exponent.toNat)

/-- The exponent of the number nearest to a fraction. -/
def exponentOf (num den : Nat) : Int :=
  let e := exponentBelow num den
  let low := num * twoTo (-e).toNat / (den * twoTo e.toNat)
  max minExponent (if low < twoTo 53 then e else e + 1)

/-- The number nearest to a fraction, unless it is too great. -/
def ofFraction? (num den : Nat) : Option Binary64 :=
  if num = 0 then some zero
  else
    let e := exponentOf num den
    let m := mantissaAt num den e
    let x : Binary64 := if m = twoTo 53 then ⟨twoTo 52, e + 1⟩ else ⟨m, e⟩
    if x.exponent ≤ maxExponent then some x else none

/-- The number nearest to a natural, unless it is too great. -/
def ofNat? (n : Nat) : Option Binary64 := ofFraction? n 1

/-- The sum, rounded. -/
def add? (x y : Binary64) : Option Binary64 :=
  ofFraction? (x.num * y.den + y.num * x.den) (x.den * y.den)

/-- The product, rounded. -/
def mul? (x y : Binary64) : Option Binary64 := ofFraction? (x.num * y.num) (x.den * y.den)

/-- The quotient by a number other than zero, rounded. -/
def div? (x y : Binary64) : Option Binary64 := ofFraction? (x.num * y.den) (x.den * y.num)

/-- The nearest whole number, the greater one in the middle. -/
def round? (x : Binary64) : Option Binary64 := ofNat? ((2 * x.num + x.den) / (2 * x.den))

end Binary64

end LogQuery
