import LogQuery.Proofs.Stream.Operator

/-!
# Patterns of alternatives

A selector with a regular expression holds its values as alternatives, with a backslash before
every backslash and every bar of a value. The pattern is cut at the bars that are not escaped while
the escapes stay in place, and then each alternative loses them. Both passes read a backslash
together with the character behind it, so neither runs of backslashes nor one at the end of a value
can hide a bar that separates.
-/

namespace LogQuery.StreamSelector

open Lexer (Lexes Spells)

variable {label : Text} {values : List Text}

/-- A backslash before every backslash and every bar. -/
def escapeAlternative : Text → Text
  | [] => []
  | c :: t =>
    if c = '\\' ∨ c = '|' then '\\' :: c :: escapeAlternative t else c :: escapeAlternative t

/-- The pattern whose alternatives are the given values. -/
def pattern (values : List Text) : Text := Text.join ['|'] (values.map escapeAlternative)

/-- The operator in front of a pattern. -/
def patternSign (negated : Bool) : Text := if negated then "!~" else "=~"

/-- A selector by a pattern between backticks. -/
def patternText (label : Text) (negated : Bool) (values : List Text) : Text :=
  label ++ (patternSign negated ++ Quoting.between .backtick (pattern values))

theorem escapeAlternative_eq_nil {v : Text} (h : escapeAlternative v = []) : v = [] := by
  cases v with
  | nil => rfl
  | cons c v =>
      rw [escapeAlternative] at h
      split at h
      · cases h
      · cases h

theorem mem_escapeAlternative {v : Text} {c : Char} (h : c ∈ escapeAlternative v) :
    c = '\\' ∨ c ∈ v := by
  induction v with
  | nil => cases h
  | cons d v ih =>
      rw [escapeAlternative] at h
      split at h
      · rcases List.mem_cons.mp h with rfl | h
        · exact .inl rfl
        · rcases List.mem_cons.mp h with rfl | h
          · exact .inr (by simp)
          · exact (ih h).imp_right fun mem => by simp [mem]
      · rcases List.mem_cons.mp h with rfl | h
        · exact .inr (by simp)
        · exact (ih h).imp_right fun mem => by simp [mem]

/-! ### Cutting -/

/-- A text put in front of the first part. -/
def putFront (t : Text) : List Text → List Text
  | [] => [t]
  | part :: parts => (t ++ part) :: parts

theorem cutAlternatives_bar (t : Text) : cutAlternatives ('|' :: t) = [] :: cutAlternatives t := by
  rw [cutAlternatives]
  · rfl
  · rintro ⟨⟩
  · rintro c cs ⟨⟩

/-- An escaped character stays with the part behind it, and so does its backslash. -/
theorem cutAlternatives_pair (c : Char) (t : Text) :
    cutAlternatives ('\\' :: c :: t) = putFront ['\\', c] (cutAlternatives t) := by
  rw [cutAlternatives]
  cases cutAlternatives t with
  | nil => rfl
  | cons part parts => rfl

theorem cutAlternatives_cons {c : Char} (slash : c ≠ '\\') (bar : c ≠ '|') (t : Text) :
    cutAlternatives (c :: t) = putFront [c] (cutAlternatives t) := by
  rw [cutAlternatives]
  · rw [if_neg (by simpa using bar)]
    cases cutAlternatives t with
    | nil => rfl
    | cons part parts => rfl
  · rintro rfl
    contradiction
  · rintro d ds rfl
    contradiction

theorem cutAlternatives_ne_nil (t : Text) : cutAlternatives t ≠ [] := by
  fun_cases cutAlternatives t <;> simp

theorem putFront_append {parts : List Text} (h : parts ≠ []) (t u : Text) :
    putFront t (putFront u parts) = putFront (t ++ u) parts := by
  cases parts with
  | nil => contradiction
  | cons part parts => simp [putFront]

/-- No bar of an escaped value cuts. -/
theorem cutAlternatives_escape (v t : Text) :
    cutAlternatives (escapeAlternative v ++ t) =
      putFront (escapeAlternative v) (cutAlternatives t) := by
  have parts := cutAlternatives_ne_nil t
  induction v with
  | nil =>
      cases cut : cutAlternatives t with
      | nil => contradiction
      | cons part parts => simp [escapeAlternative, putFront, cut]
  | cons c v ih =>
      rw [escapeAlternative]
      split
      · rw [List.cons_append, List.cons_append, cutAlternatives_pair, ih, putFront_append parts]
        rfl
      · next plain =>
        simp only [not_or] at plain
        rw [List.cons_append, cutAlternatives_cons plain.1 plain.2, ih, putFront_append parts]
        rfl

/-- The pattern of values is cut between the values and nowhere else. -/
theorem cutAlternatives_pattern (hne : values ≠ []) :
    cutAlternatives (pattern values) = values.map escapeAlternative := by
  induction values with
  | nil => contradiction
  | cons v values ih =>
      cases values with
      | nil =>
          have alone := cutAlternatives_escape v []
          rw [List.append_nil] at alone
          have whole : pattern [v] = escapeAlternative v := rfl
          rw [whole, alone]
          simp [cutAlternatives, putFront]
      | cons w values =>
          have split : pattern (v :: w :: values) =
              escapeAlternative v ++ '|' :: pattern (w :: values) := by
            simp [pattern, Text.join]
          rw [split, cutAlternatives_escape, cutAlternatives_bar, ih (by simp)]
          simp [putFront]

/-! ### Taking the escapes away -/

theorem unescapeAny_pair {c : Char} (h : c ≠ '\n') (t : Text) :
    unescapeAny ('\\' :: c :: t) = c :: unescapeAny t := by
  rw [unescapeAny, if_pos ⟨rfl, h⟩]

theorem unescapeAny_cons {c : Char} (h : c ≠ '\\') (t : Text) :
    unescapeAny (c :: t) = c :: unescapeAny t := by
  cases t with
  | nil => rfl
  | cons d t => rw [unescapeAny, if_neg (by simp [h])]

/-- Every escape in an escaped value is one that was put there. -/
theorem unescapeAny_escape (v : Text) : unescapeAny (escapeAlternative v) = v := by
  induction v with
  | nil => rfl
  | cons c v ih =>
      rw [escapeAlternative]
      split
      · next special =>
        have visible : c ≠ '\n' := by rcases special with rfl | rfl <;> decide
        rw [unescapeAny_pair visible, ih]
      · next plain =>
        simp only [not_or] at plain
        rw [unescapeAny_cons plain.1, ih]

theorem alternatives_pattern (hne : values ≠ []) (hvalues : ∀ v ∈ values, v ≠ []) :
    alternatives (pattern values) = values := by
  have kept : (values.map escapeAlternative).filter (fun v => !v.isEmpty) =
      values.map escapeAlternative := by
    rw [List.filter_eq_self]
    intro u hu
    obtain ⟨v, hv, rfl⟩ := List.mem_map.mp hu
    have visible : escapeAlternative v ≠ [] := fun nothing =>
      hvalues v hv (escapeAlternative_eq_nil nothing)
    simpa using visible
  rw [alternatives, cutAlternatives_pattern hne, kept, List.map_map]
  exact (List.map_congr_left fun v _ => unescapeAny_escape v).trans (List.map_id values)

/-! ### The selector -/

theorem not_mem_pattern (hvalues : ∀ v ∈ values, '`' ∉ v) : '`' ∉ pattern values := by
  apply Text.join_of (P := fun t => '`' ∉ t)
  · simp
  · intro t u ht hu
    simp [ht, hu]
  · decide
  · intro u hu mem
    obtain ⟨v, hv, rfl⟩ := List.mem_map.mp hu
    rcases mem_escapeAlternative mem with slash | mem
    · exact absurd slash (by decide)
    · exact hvalues v hv mem

/-- The backticks make the pattern one quote, the last token of the selector. -/
theorem getLast?_tokenize_patternText (hl : IsLabel label) (negated : Bool)
    (tick : '`' ∉ pattern values) :
    (tokenize (patternText label negated values)).getLast? =
      some (.quote (Quoting.between .backtick (pattern values))) := by
  have enclosed : Quoting.enclose .all (pattern values) =
      Quoting.between .backtick (pattern values) := by
    rw [Quoting.enclose, if_pos (by simpa using tick)]
  have quote : Lexes 63 ('~' :: Quoting.between .backtick (pattern values))
      [.word ['~'], .quote (Quoting.between .backtick (pattern values))] := by
    have word : Lexes 63 (['~'] ++ Quoting.enclose .all (pattern values)) _ :=
      .word_quote (.singleton (by decide)) (by simp [Lexer.isPlain]) ⟨.backtick, tick⟩
    rwa [enclosed] at word
  have tight : Text.Tight ('~' :: Quoting.between .backtick (pattern values)) := by
    have sign : Text.Tight ['~'] := .singleton (by decide)
    exact sign.append (Quoting.tight_between .backtick (pattern values))
  have sign : ∃ c, c ∈ [',', '|', '=', '!'] ∧ patternText label negated values =
      label ++ c :: '~' :: Quoting.between .backtick (pattern values) := by
    cases negated with
    | false => exact ⟨'=', by simp, rfl⟩
    | true => exact ⟨'!', by simp, rfl⟩
  obtain ⟨c, separator, text⟩ := sign
  have spells := spells_label hl separator (Spells.of_lexes tight quote)
  rw [text, tokenize, Lexer.maxNesting, spells.tokensWithin_eq]
  simp

/-- The values of a pattern are read back in order, whatever backslashes, bars and operators they
hold, with the label in front of the operator and the sign of the operator. -/
theorem ofText_patternText (hl : IsLabel label) (negated : Bool) (hne : values ≠ [])
    (hvalues : ∀ v ∈ values, v ≠ [] ∧ '`' ∉ v) :
    ofText (patternText label negated values) = { label, negated, values } := by
  have tick : '`' ∉ pattern values := not_mem_pattern fun v hv => (hvalues v hv).2
  have tight := Quoting.tight_between .backtick (pattern values)
  have unquoted : Quoting.unquote (Quoting.between .backtick (pattern values)) =
      pattern values := by
    rw [Quoting.unquote, Quoting.unquoteWith_between]
    exact Escape.remove_of_not_mem .all tick
  have read : alternatives
      (Quoting.unquote (Quoting.between .backtick (pattern values)).trim) = values := by
    rw [tight.trim_eq, unquoted]
    exact alternatives_pattern hne fun v hv => (hvalues v hv).1
  have operator : operatorAt?
      (patternSign negated ++ Quoting.between .backtick (pattern values)) =
        some (patternSign negated, Quoting.between .backtick (pattern values)) := by
    cases negated with
    | false => rfl
    | true => rfl
  have isPattern : (patternSign negated).contains '~' = true := by cases negated <;> decide
  have sign : negations.contains (patternSign negated) = negated := by cases negated <;> decide
  rw [ofText_of_getLast? (getLast?_tokenize_patternText hl negated tick) rfl, patternText,
    ofOperator_append hl operator, if_pos isPattern, read, sign]

/-- Runs of backslashes before a bar and at the end of a value, an escaped line feed, operators, and
a value that is a bar. -/
theorem ofText_patternText_escapes :
    let values : List Text := ["a\\", "\\\\|b", "|", "!~ in (", "\\\n=\"", "c"]
    (IsLabel "k8s_in" ∧ values ≠ [] ∧ ∀ v ∈ values, v ≠ [] ∧ '`' ∉ v) ∧
      ofText (patternText "k8s_in" true values) =
        { label := "k8s_in", negated := true, values } := by
  intro values
  have label : IsLabel "k8s_in" := by decide
  have plain : ∀ v ∈ values, v ≠ [] ∧ '`' ∉ v := by decide
  exact ⟨⟨label, by simp [values], plain⟩, ofText_patternText label true (by simp [values]) plain⟩

end LogQuery.StreamSelector
