import LogQuery.Text.Basic
import LogQuery.Text.CaseTable

/-!
# Lowercase text

Keywords are recognised after full Unicode lowercasing: every character maps to its
lowercase form, the dotted capital I to two characters, and a capital sigma at the
end of a word to the final sigma. `sameFold` is the narrower comparison that folds
ASCII letters only.
-/

namespace LogQuery.Text

/-- The code point lies in one of the closed ranges. -/
def inRanges (ranges : List (Nat × Nat)) (n : Nat) : Bool :=
  ranges.any fun (first, last) => first ≤ n && n ≤ last

/-- Skipped when the final-sigma rule looks for a neighbour. -/
def isCaseIgnorable (c : Char) : Bool := inRanges ignorableRanges c.toNat

def isCased (c : Char) : Bool := inRanges casedRanges c.toNat

/-- The first character that is not ignorable is cased. -/
def casedAhead : Text → Bool
  | [] => false
  | c :: cs => if isCaseIgnorable c then casedAhead cs else isCased c

/-- Lowercase form of a character that maps to one character wherever it stands. -/
def lowerChar (c : Char) : Char :=
  if c.toNat < 128 then c.toLower
  else match lowerRanges.find? fun (first, last, step, _) =>
      first ≤ c.toNat && c.toNat ≤ last && (c.toNat - first) % step == 0 with
    | some (_, _, _, shift) => Char.ofNat (c.toNat + shift).toNat
    | none => c

/-- Lowercase forms of the characters that follow `before`, whose nearest character
comes first. -/
def lowerAfter (before : Text) : Text → Text
  | [] => []
  | c :: cs =>
    let rest := lowerAfter (c :: before) cs
    if c == '\u0130' then 'i' :: '\u0307' :: rest
    else if c == '\u03a3' && casedAhead before && !casedAhead cs then '\u03c2' :: rest
    else lowerChar c :: rest

/-- Full lowercase form. -/
def lower (t : Text) : Text := lowerAfter [] t

/-- Equal up to the case of ASCII letters. -/
def sameFold (a b : Text) : Bool := a.map Char.toLower == b.map Char.toLower

end LogQuery.Text
