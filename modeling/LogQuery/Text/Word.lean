import LogQuery.Text.Basic
import LogQuery.Text.Case
import LogQuery.Text.WordTable

/-!
# Word characters and digits

The classes behind word boundaries and digits in pattern searches, over the whole of
Unicode.
-/

namespace LogQuery.Text

/-- Part of a word: a letter, mark, decimal digit, letter number, connector or joiner. -/
def isWordChar (c : Char) : Bool :=
  if c.toNat < 128 then c.isAlphanum || c == '_' else inRanges wordRanges c.toNat

/-- A decimal digit of any script. -/
def isDecimalDigit (c : Char) : Bool :=
  if c.toNat < 128 then c.isDigit else inRanges digitRanges c.toNat

/-- The text starts outside a word. -/
def startsOutsideWord : Text → Bool
  | [] => true
  | c :: _ => !isWordChar c

end LogQuery.Text
