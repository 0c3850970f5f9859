import LogQuery.Proofs.Quoting.Enclosed
import LogQuery.Stream.Selector

/-!
# Labels and operators of selectors

A selector that ends in a bracket is read by its tokens. One that does not is cut at the first
operator in its text. No character of a name is the start of an operator, so the cut is right behind
the label, whatever operators the values hold. The label may be empty.
-/

namespace LogQuery.StreamSelector

open Lexer (Lexes Spells)

variable {label operator rest t : Text} {levels : Nat} {rs : List Token}

/-- Characters of a name, possibly none. -/
def IsLabel (t : Text) : Prop := ∀ c ∈ t, Text.isNameChar c = true

instance (t : Text) : Decidable (IsLabel t) :=
  decidable_of_iff (t.all Text.isNameChar = true) List.all_eq_true

theorem isLabel_nil : IsLabel [] := by simp [IsLabel]

theorem IsLabel.isName (h : IsLabel label) (hne : label ≠ []) : label.IsName := ⟨hne, h⟩

theorem IsLabel.trimmed (h : IsLabel label) : label.Trimmed :=
  .of_all fun c hc => Text.isBlank_of_isNameChar (h c hc)

/-! ### The first operator -/

theorem operatorAt?_of_isNameChar {c : Char} (h : Text.isNameChar c = true) (t : Text) :
    operatorAt? (c :: t) = none := by
  unfold operatorAt?
  split
  -- the last row has no operator, and those above start with a sign or a space
  case h_6 => rfl
  all_goals
    next start =>
      obtain ⟨rfl, -⟩ := List.cons.inj start
      exact absurd h (by decide)

theorem splitOperator?_append (hl : IsLabel label) (h : operatorAt? t = some (operator, rest)) :
    splitOperator? (label ++ t) = some (label, operator, rest) := by
  induction label with
  | nil =>
      cases t with
      | nil =>
          have nothing : operatorAt? [] = none := rfl
          rw [nothing] at h
          cases h
      | cons c t => rw [List.nil_append, splitOperator?, h]
  | cons c label ih =>
      have inside : splitOperator? (label ++ t) = some (label, operator, rest) :=
        ih fun d hd => hl d (by simp [hd])
      rw [List.cons_append, splitOperator?, operatorAt?_of_isNameChar (hl c (by simp)), inside]
      rfl

/-- A label is cut off at the operator behind it. -/
theorem ofOperator_append (hl : IsLabel label) (h : operatorAt? t = some (operator, rest)) :
    ofOperator (label ++ t) =
      { label
        negated := negations.contains operator
        values :=
          if operator.contains '~' then alternatives (Quoting.unquote rest.trim)
          else firstValue rest.trim } := by
  rw [ofOperator, splitOperator?_append hl h]
  simp only [hl.trimmed.trim_eq]

/-- A selector whose last token is no bracket is read by its operator. -/
theorem ofText_of_getLast? {last : Token} (h : (tokenize t).getLast? = some last)
    (noBracket : last.bracket? = none) : ofText t = ofOperator t := by
  rw [ofText]
  simp only [h, noBracket]

/-- A label, a word and a bracket are read by their tokens. -/
theorem ofText_of_tokens {word raw : Text} {items : List Token}
    (tokens : tokenize t = [.word label, .word word, .bracket [] raw items]) :
    ofText t =
      { label
        negated := negations.contains word
        values := (items.filter fun u => u.isValue && !u.hasText ",").map Token.value } := by
  rw [ofText, tokens]
  rfl

/-! ### Tokens -/

/-- The token of a label, none for the empty one. -/
def labelTokens (label : Text) : List Token := if label = [] then [] else [.word label]

/-- A separator behind a label is a token of its own. -/
theorem lexes_label (hl : IsLabel label) {c : Char} (hc : c ∈ [',', '|', '=', '!']) :
    Lexes levels (label ++ [c]) (labelTokens label ++ [.word [c]]) := by
  unfold labelTokens
  split
  · next empty =>
    rw [empty]
    exact .separator hc
  · next hne => exact (Spells.name (hl.isName hne)).append_separator hc

theorem head?_label (hl : IsLabel label) {c : Char} (hc : c ∈ [',', '|', '=', '!']) :
    ∀ d ∈ (label ++ [c]).head?, Text.isBlank d = false := by
  cases label with
  | nil =>
      simp only [List.mem_cons, List.not_mem_nil, or_false] at hc
      rcases hc with rfl | rfl | rfl | rfl <;> simp [Text.isBlank]
  | cons d label => simpa using Text.isBlank_of_isNameChar (hl d (by simp))

theorem spells_label (hl : IsLabel label) {c : Char} (hc : c ∈ [',', '|', '=', '!'])
    (h : Spells levels rest rs) :
    Spells levels (label ++ c :: rest) (labelTokens label ++ .word [c] :: rs) := by
  have whole := Spells.append_left (lexes_label hl hc) (head?_label hl hc) h
  simpa using whole

end LogQuery.StreamSelector
