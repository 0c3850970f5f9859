import LogQuery.Binary64.Basic

/-!
# Shortest digits

A binary64 number stands for every real that rounds to it. It is written with the fewest
decimal digits that stand for one of these reals, and with the nearest of those. The
grids of one digit, two digits and so on are tried in turn; on each the two neighbours of
the number are the only candidates.
-/

namespace LogQuery

/-- The decimal number `digits * 10 ^ exponent`. -/
structure Scaled where
  digits : Nat
  exponent : Int
  deriving DecidableEq, Repr

namespace Scaled

/-- Takes zeros off the end of the digits, at most `n` of them. -/
def dropZeros : Nat → Scaled → Scaled
  | 0, d => d
  | n + 1, d =>
    if d.digits % 10 == 0 && d.digits != 0 then dropZeros n ⟨d.digits / 10, d.exponent + 1⟩
    else d

end Scaled

namespace Binary64

/-- Which of two candidates is taken when the number stands in the middle. -/
inductive Tie
  | toEven
  | up
  deriving DecidableEq, Repr

/-- Compares `a * 10 ^ i` with `n * 2 ^ j`. -/
def compareScaled (a : Nat) (i : Int) (n : Nat) (j : Int) : Ordering :=
  compare (a * tenTo i.toNat * twoTo (-j).toNat) (n * twoTo j.toNat * tenTo (-i).toNat)

/-- The number below is only half as far away as the number above. -/
def narrowBelow (x : Binary64) : Bool := x.mantissa == twoTo 52 && x.exponent > minExponent

/-- The decimal number rounds to `x`. An end of the interval belongs to it when the
mantissa is even. -/
def standsFor (x : Binary64) (d : Scaled) : Bool :=
  let low := if x.narrowBelow then 4 * x.mantissa - 1 else 4 * x.mantissa - 2
  let high := 4 * x.mantissa + 2
  let closed := x.mantissa % 2 == 0
  let fromLow := compareScaled d.digits d.exponent low (x.exponent - 2)
  let toHigh := compareScaled d.digits d.exponent high (x.exponent - 2)
  (fromLow == .gt || (closed && fromLow == .eq)) && (toHigh == .lt || (closed && toHigh == .eq))

/-- An exponent `k` with the number below `10 ^ k`, greater than the least one by at most
one. -/
def scaleOf (x : Binary64) : Int :=
  if x.den ≤ x.num then (Nat.toDigits 10 (x.num / x.den)).length
  else -((Nat.log2 (x.den / x.num) * 30102 / 100000 : Nat) : Int)

/-- The greatest multiple of `10 ^ exponent` up to the number. -/
def floorAt (x : Binary64) (exponent : Int) : Nat :=
  x.num * tenTo (-exponent).toNat / (x.den * tenTo exponent.toNat)

/-- The neighbour that is taken on the grid of an exponent, when one stands for the
number. -/
def onGrid? (tie : Tie) (x : Binary64) (exponent : Int) : Option Scaled :=
  let below : Scaled := ⟨x.floorAt exponent, exponent⟩
  let above : Scaled := ⟨x.floorAt exponent + 1, exponent⟩
  if x.standsFor below then
    if x.standsFor above then
      match compareScaled (2 * below.digits + 1) exponent (2 * x.mantissa) x.exponent with
      | .gt => some below
      | .lt => some above
      | .eq => if tie == .toEven && below.digits % 2 == 0 then some below else some above
    else some below
  else if x.standsFor above then some above
  else none

/-- The exact decimal value. -/
def exact (x : Binary64) : Scaled :=
  ⟨x.num * Nat.pow 5 (-x.exponent).toNat, min x.exponent 0⟩

/-- The number of grids that are tried. -/
def gridCount : Nat := 18

/-- The first grid with a neighbour that stands for the number. -/
def firstOnGrids? (tie : Tie) (x : Binary64) : Option Scaled :=
  (List.range gridCount).findSome? fun (n : Nat) => onGrid? tie x (x.scaleOf - (n + 1 : Nat))

/-- The shortest decimal number that stands for `x`. -/
def shortest (tie : Tie) (x : Binary64) : Scaled :=
  if x.isZero then ⟨0, 0⟩ else Scaled.dropZeros gridCount ((firstOnGrids? tie x).getD x.exact)

end Binary64

end LogQuery
