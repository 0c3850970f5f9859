import LogQuery.Operation.Id
import LogQuery.Operation.Param

/-!
# Operations

One filter, connective, pipe stage or stats function with its parameters. What a
position means is laid down by the operation's definition.
-/

namespace LogQuery

structure Operation where
  id : OperationId
  params : List Param
  disabled : Bool := false
  deriving DecidableEq, Repr

namespace Operation

/-- An operation without parameters. -/
def marker (id : OperationId) : Operation := { id, params := [] }

/-- The written form of a parameter, empty when it is missing. -/
def text (op : Operation) (i : Nat) : Text := (op.params[i]?.map Param.toText).getD []

/-- The parameter as a flag, false when it is missing. -/
def flag (op : Operation) (i : Nat) : Bool := op.params[i]?.any Param.toFlag

/-- The parameter as an integer, zero when it is missing. -/
def int (op : Operation) (i : Nat) : Int := (op.params[i]?.map Param.toInt).getD 0

/-- The written form of a parameter that is a number above zero. -/
def positive? (op : Operation) (i : Nat) : Option Text :=
  (op.params[i]?.filter fun p => p.toDecimal.isPositive).map Param.toText

/-- The parameters agree one by one. -/
def sameParams : List Param → List Param → Bool
  | [], [] => true
  | p :: ps, q :: qs => p.sameValue q && sameParams ps qs
  | _, _ => false

/-- Equal, numbers by their value. -/
def sameValue (a b : Operation) : Bool :=
  a.id == b.id && a.disabled == b.disabled && sameParams a.params b.params

/-- Two lists of operations that agree one by one. -/
def sameList : List Operation → List Operation → Bool
  | [], [] => true
  | a :: as, b :: bs => a.sameValue b && sameList as bs
  | _, _ => false

end Operation

end LogQuery
