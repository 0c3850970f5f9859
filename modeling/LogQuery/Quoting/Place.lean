import LogQuery.Quoting.Within
import LogQuery.Text.Basic

/-!
# Cutting text outside of quotes and brackets

Several parts of a query are cut at a separator that does not count between quote marks
or brackets. They differ in which brackets they know and in what a backslash escapes;
a record of rules says so, and the cuts are the same for all of them.
-/

namespace LogQuery

def isOpener (c : Char) : Bool := c == '(' || c == '[' || c == '{'

def isCloser (c : Char) : Bool := c == ')' || c == ']' || c == '}'

/-- What a scan takes for brackets and escapes. -/
structure PlaceRules where
  opens : Char → Bool
  closes : Char → Bool
  /-- A backslash escapes between backticks as between other marks. -/
  backtickEscapes : Bool := false
  /-- A backslash escapes outside of quotes as well. -/
  outerEscapes : Bool := false

/-- Inside how many brackets and where with respect to quotes a character stands. -/
structure Place where
  depth : Nat := 0
  within : Within := .outside
  /-- Outside of quotes after a backslash. -/
  escaped : Bool := false
  deriving DecidableEq, Repr

namespace Place

/-- Outside of quotes and brackets, and not escaped. -/
def isTop (p : Place) : Bool := p.depth == 0 && p.within == .outside && !p.escaped

/-- The place after one more character. A closing bracket without partner is passed over. -/
def step (r : PlaceRules) (p : Place) (c : Char) : Place :=
  if p.escaped then { p with escaped := false }
  else if p.within != .outside then { p with within := p.within.step r.backtickEscapes c }
  else if c == '\\' && r.outerEscapes then { p with escaped := true }
  else if r.opens c then { p with depth := p.depth + 1 }
  else if r.closes c then { p with depth := p.depth - 1 }
  else { p with within := p.within.step r.backtickEscapes c }

/-- Cuts at the top-level characters that satisfy `cut` and drops them. -/
def cutAt (r : PlaceRules) (cut : Char → Bool) (p : Place) : Text → List Text
  | [] => [[]]
  | c :: cs =>
    if p.isTop && cut c then [] :: cutAt r cut p cs
    else match cutAt r cut (p.step r c) cs with
      | [] => [[c]]
      | part :: parts => (c :: part) :: parts

/-- The text before the first top-level character that satisfies `cut`, and the text from
that character on. -/
def splitBefore (r : PlaceRules) (cut : Char → Bool) (p : Place) : Text → Text × Text
  | [] => ([], [])
  | c :: cs =>
    if p.isTop && cut c then ([], c :: cs)
    else
      let rest := splitBefore r cut (p.step r c) cs
      (c :: rest.1, rest.2)

end Place

/-- A run of text with the gap before it. -/
structure Fragment where
  gap : Text
  text : Text
  deriving DecidableEq, Repr

namespace Fragment

/-- Puts a character of a gap in front of fragments; after the last one it is dropped. -/
def addGap (c : Char) : List Fragment → List Fragment
  | [] => []
  | f :: fs => { f with gap := c :: f.gap } :: fs

/-- Puts a character of a run in front of fragments. -/
def addChar (c : Char) : List Fragment → List Fragment
  | [] => [⟨[], [c]⟩]
  | f :: fs => if f.gap.isEmpty then ⟨[], c :: f.text⟩ :: fs else ⟨[], [c]⟩ :: f :: fs

/-- The fragments of a text: gaps are the white space at top level. -/
def ofText (r : PlaceRules) (p : Place) : Text → List Fragment
  | [] => []
  | c :: cs =>
    if p.isTop && Text.isBlank c then addGap c (ofText r p cs)
    else addChar c (ofText r (p.step r c) cs)

end Fragment

/-! ### The rules in use -/

/-- Label selectors: brackets of all kinds, escapes between all marks. -/
def selectorRules : PlaceRules := { opens := isOpener, closes := isCloser, backtickEscapes := true }

/-- Pipe stages: brackets of all kinds, escapes outside of quotes too. -/
def stageRules : PlaceRules := { opens := isOpener, closes := isCloser, outerEscapes := true }

/-- Filters: round brackets only. -/
def filterRules : PlaceRules := { opens := (· == '('), closes := (· == ')') }

/-- Words: no brackets. -/
def wordRules : PlaceRules := { opens := fun _ => false, closes := fun _ => false }

/-- The texts between top-level pipes. -/
def stageTexts (t : Text) : List Text := Place.cutAt stageRules (· == '|') {} t

/-- The text before the first top-level pipe, and the text from that pipe on. -/
def splitHead (t : Text) : Text × Text := Place.splitBefore stageRules (· == '|') {} t

end LogQuery
