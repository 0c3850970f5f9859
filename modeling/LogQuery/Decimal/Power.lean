/-!
# Powers of two and ten

The powers that decimal and binary numbers are made of.
-/

namespace LogQuery

/-- Two to the `n`. -/
def twoTo (n : Nat) : Nat := Nat.pow 2 n

/-- Ten to the `n`. -/
def tenTo (n : Nat) : Nat := Nat.pow 10 n

end LogQuery
