/-!
# Text

Query text is a list of characters, so that every scan over it is a recursion on
its shape. String literals stand for their characters. This module holds the
Unicode white space class, trimming, and the small joins and cuts that the readers
and writers of queries share. Case mapping has a module of its own.
-/

namespace LogQuery

/-- Query text: its characters in order. -/
abbrev Text := List Char

instance : Coe String Text := ⟨String.toList⟩

namespace Text

/-- Unicode white space: the `White_Space` property. -/
def isBlank (c : Char) : Bool :=
  c == ' ' || ('\t' ≤ c && c ≤ '\r') || c == '\u0085' || c == '\u00a0' || c == '\u1680' ||
    ('\u2000' ≤ c && c ≤ '\u200a') || c == '\u2028' || c == '\u2029' || c == '\u202f' ||
    c == '\u205f' || c == '\u3000'

/-- Nothing but white space. -/
def allBlank (t : Text) : Bool := t.all isBlank

/-- Drops the characters at the end that satisfy `p`. -/
def dropEndWhile (p : Char → Bool) (t : Text) : Text := (t.reverse.dropWhile p).reverse

def trimStart (t : Text) : Text := t.dropWhile isBlank

def trimEnd (t : Text) : Text := dropEndWhile isBlank t

/-- Drops white space at both ends. -/
def trim (t : Text) : Text := trimEnd (trimStart t)

/-- The parts in order, with `separator` between neighbours. -/
def join (separator : Text) : List Text → Text
  | [] => []
  | [part] => part
  | part :: parts => part ++ separator ++ join separator parts

def startsWith (t start : Text) : Bool := start.isPrefixOf t

def endsWith (t ending : Text) : Bool := ending.isSuffixOf t

/-- The text is one of the listed words. -/
def isOneOf (t : Text) (words : List Text) : Bool := words.contains t

/-- Cuts at every separator; a text without one is a single part. -/
def splitOn (isSeparator : Char → Bool) : Text → List Text
  | [] => [[]]
  | c :: cs =>
    if isSeparator c then [] :: splitOn isSeparator cs
    else match splitOn isSeparator cs with
      | [] => [[c]]
      | part :: parts => (c :: part) :: parts

/-- Cuts at the first separator and drops it. -/
def splitFirst? (isSeparator : Char → Bool) : Text → Option (Text × Text)
  | [] => none
  | c :: cs =>
    if isSeparator c then some ([], cs)
    else (splitFirst? isSeparator cs).map fun (before, after) => (c :: before, after)

/-- The code-point order, a shorter text before its extensions. -/
def le : Text → Text → Bool
  | [], _ => true
  | _ :: _, [] => false
  | a :: as, b :: bs => if a = b then le as bs else decide (a < b)

/-- The text, or `none` when it is empty. -/
def nonempty? (t : Text) : Option Text := if t.isEmpty then none else some t

end Text

end LogQuery
