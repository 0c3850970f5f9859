import LogQuery.Text.Basic

/-!
# Backslash escapes

Putting a backslash before a character and taking it away again, either at every
occurrence or at the first one only. Removal reads from the left, and a pair that has
been read is not looked at again.
-/

namespace LogQuery

/-- How many occurrences an escape or its removal changes. -/
inductive EscapeMode
  | all
  | firstOccurrence
  deriving DecidableEq, Repr

namespace Escape

/-- A backslash before every `c`. -/
def addAll (c : Char) : Text → Text
  | [] => []
  | d :: r => if d = c then '\\' :: c :: addAll c r else d :: addAll c r

/-- A backslash before the first `c`. -/
def addFirst (c : Char) : Text → Text
  | [] => []
  | d :: r => if d = c then '\\' :: c :: r else d :: addFirst c r

/-- Takes the backslash away from every escaped `c`. -/
def removeAll (c : Char) : Text → Text
  | [] => []
  | [d] => [d]
  | b :: d :: r => if b = '\\' ∧ d = c then c :: removeAll c r else b :: removeAll c (d :: r)

/-- Takes the backslash away from the first escaped `c`. -/
def removeFirst (c : Char) : Text → Text
  | [] => []
  | [d] => [d]
  | b :: d :: r => if b = '\\' ∧ d = c then c :: r else b :: removeFirst c (d :: r)

/-- Escapes `c` as the mode says. -/
def add : EscapeMode → Char → Text → Text
  | .all => addAll
  | .firstOccurrence => addFirst

/-- Removes the escapes of `c` as the mode says. -/
def remove : EscapeMode → Char → Text → Text
  | .all => removeAll
  | .firstOccurrence => removeFirst

end Escape

end LogQuery
