import LogQuery.Text.Word

/-!
# Searching and replacing

Searches for keywords in any case of their letters, between word boundaries or at the
start of a text, and replacement from left to right.
-/

namespace LogQuery.Text

/-- The lowercase ASCII letter that a character stands for in a caseless comparison. The
long s and the Kelvin sign fold onto letters as well. -/
def foldChar (c : Char) : Char :=
  if c == '\u017f' then 's' else if c == '\u212a' then 'k' else c.toLower

/-- The text behind a lowercase word that stands at the start in any case. -/
def afterWord? : Text → Text → Option Text
  | [], t => some t
  | _ :: _, [] => none
  | w :: ws, c :: cs => if foldChar c == w then afterWord? ws cs else none

/-- The text behind white space, of which there is some. -/
def afterBlank? : Text → Option Text
  | [] => none
  | c :: cs => if isBlank c then some (trimStart cs) else none

/-- One of the words stands in the text, in any case, with no other part of a word on
either side. `outside` says that the text does not start within a word. -/
def holdsWord (words : List Text) (outside : Bool) : Text → Bool
  | [] => false
  | c :: cs =>
    (outside && words.any fun w => (afterWord? w (c :: cs)).any startsOutsideWord) ||
      holdsWord words (!isWordChar c) cs

/-- Replaces from left to right, after `skip` characters that are left out. An edit looks
at the text ahead and says what its first characters become and how many they are. -/
def replaceAll (edit : Text → Option (Text × Nat)) (skip : Nat) : Text → Text
  | [] => []
  | c :: cs =>
    match skip with
    | n + 1 => replaceAll edit n cs
    | 0 =>
      match edit (c :: cs) with
      | some (new, size) => new ++ replaceAll edit (size - 1) cs
      | none => c :: replaceAll edit 0 cs

end LogQuery.Text
