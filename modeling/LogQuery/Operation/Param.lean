import LogQuery.Decimal.Read

/-!
# Parameters

An operation carries its parameters by position: a flag, a text or a number each. The
readings below are lenient, so that a renderer can ask any parameter for a text, a
flag or a number.
-/

namespace LogQuery

inductive Param
  | flag (b : Bool)
  | text (t : Text)
  | number (n : Decimal)
  deriving DecidableEq, Repr

namespace Param

def int (n : Int) : Param := number (.ofInt n)

def empty : Param := text []

/-- The text of a text parameter, empty for the others. -/
def asText : Param → Text
  | text t => t
  | _ => []

/-- The written form; a number has its shortest fraction. -/
def toText : Param → Text
  | flag b => if b then "true" else "false"
  | text t => t
  | number n => n.normalize.text

/-- True, a number other than zero, or a text that is neither empty nor `false`. -/
def toFlag : Param → Bool
  | flag b => b
  | text t => !t.isEmpty && t != ("false" : Text)
  | number n => !n.isZero

/-- The number, read from a text if need be, else zero. -/
def toDecimal : Param → Decimal
  | flag _ => .zero
  | text t => (Decimal.ofText? t.trim).getD .zero
  | number n => n

/-- The whole part of the number, zero when it does not fit a 64-bit word. -/
def toInt (p : Param) : Int := p.toDecimal.toWord?.getD 0

/-- Equal, numbers by their value. -/
def sameValue : Param → Param → Bool
  | flag a, flag b => a == b
  | text a, text b => a == b
  | number a, number b => a.sameValue b
  | _, _ => false

end Param

end LogQuery
