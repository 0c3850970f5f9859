import LogQuery.Decimal.Basic

/-!
# Reading decimal numbers

The full form is an optional sign, digits with at most one point among them, and
underscores anywhere after the first digit. Fields and limits are read more loosely:
a leading number is taken and a unit after it is left alone.
-/

namespace LogQuery.Decimal

/-- The value of an ASCII digit. -/
def digit? (c : Char) : Option Nat := if c.isDigit then some (c.toNat - '0'.toNat) else none

/-- What may follow the digit at which a fraction is rounded. -/
def isIgnoredTail (t : Text) : Bool := t.all fun c => c.isDigit || c == '_'

/-- Rounds half up at one more digit. A mantissa that this takes past its limit gives up
a digit of its own. -/
def roundAt (mantissa scale digit : Nat) : Option (Nat × Nat) :=
  if digit < 5 then some (mantissa, scale)
  else if mantissa + 1 ≤ maxMantissa then some (mantissa + 1, scale)
  else if scale == 0 then none
  else some ((mantissa + 5) / 10, scale - 1)

/-- Digits after the point. `started` says that some digit has been read. The first digit
that does not fit any more is the one that rounds, with underscores before it or not. -/
def readFraction (started : Bool) (mantissa scale : Nat) : Text → Option (Nat × Nat)
  | [] => if started then some (mantissa, scale) else none
  | c :: cs =>
    match digit? c with
    | some d =>
      if scale ≥ maxScale || mantissa * 10 + d > maxMantissa then
        if isIgnoredTail cs then roundAt mantissa scale d else none
      else readFraction true (mantissa * 10 + d) (scale + 1) cs
    | none => if c == '_' && started then readFraction started mantissa scale cs else none

/-- Digits before the point. -/
def readWhole (started : Bool) (mantissa : Nat) : Text → Option (Nat × Nat)
  | [] => if started then some (mantissa, 0) else none
  | c :: cs =>
    match digit? c with
    | some d =>
      if mantissa * 10 + d > maxMantissa then none else readWhole true (mantissa * 10 + d) cs
    | none =>
      if c == '.' then readFraction started mantissa 0 cs
      else if c == '_' && started then readWhole started mantissa cs
      else none

/-- Reads a whole text as a number. -/
def ofText? : Text → Option Decimal
  | '-' :: cs => (readWhole false 0 cs).map fun (m, s) => ofParts true m s
  | '+' :: cs => (readWhole false 0 cs).map fun (m, s) => ofParts false m s
  | cs => (readWhole false 0 cs).map fun (m, s) => ofParts false m s

/-- The number at the start of a text: a sign, digits, and a fraction if a digit follows
the point. -/
def leadingPart (t : Text) : Option Text :=
  let sign := match t with
    | c :: _ => if c == '-' || c == '+' then [c] else []
    | [] => []
  let rest := t.drop sign.length
  let whole := rest.takeWhile Char.isDigit
  if whole.isEmpty then none
  else match rest.drop whole.length with
    | '.' :: after =>
      let fraction := after.takeWhile Char.isDigit
      some (if fraction.isEmpty then sign ++ whole else sign ++ whole ++ '.' :: fraction)
    | _ => some (sign ++ whole)

/-- The leading number of a text, underscores left out. -/
def ofLeading? (t : Text) : Option Decimal := (leadingPart (t.filter (· != '_'))).bind ofText?

/-- The number that a run of digits stands for. -/
def ofDigits (digits : Text) : Nat :=
  digits.foldl (fun n c => n * 10 + (c.toNat - '0'.toNat)) 0

/-- The leading integer of a text after white space and a sign, when its digits fit a
signed 64-bit word. -/
def leadingInt? (t : Text) : Option Int :=
  let (sign, rest) : Int × Text := match t.trimStart with
    | '-' :: cs => (-1, cs)
    | '+' :: cs => (1, cs)
    | cs => (1, cs)
  let digits := rest.takeWhile Char.isDigit
  if digits.isEmpty || ofDigits digits > wordMax then none else some (sign * ofDigits digits)

end LogQuery.Decimal
