import LogQuery.Proofs.Quoting.Phrases
import LogQuery.Proofs.Stream.Operator

/-!
# Selectors that come back

A selector is written in three forms: an operator without a value, an operator with one value, and
a word with several values in a bracket. The forms with an operator are read at the operator behind
the label, and the form with a bracket by its tokens: where these are two, the word in front of the
bracket is missing. An empty label has no token of its own. In the forms with an operator that makes
no difference, but in the other one the word in front of the bracket is then taken for the label.
-/

namespace LogQuery

open Lexer (Lexes Spells)

namespace StreamSelector

variable {label q v : Text} {negated : Bool} {values : List Text} {levels : Nat}

/-- A value that is a name, or that needs quotes and has neither backticks nor backslashes. -/
def IsPlainValue (v : Text) : Prop :=
  v.IsName ∨ Quoting.mustQuote v = true ∧ '`' ∉ v ∧ '\\' ∉ v

instance (v : Text) : Decidable (IsPlainValue v) :=
  inferInstanceAs (Decidable (v.IsName ∨ Quoting.mustQuote v = true ∧ '`' ∉ v ∧ '\\' ∉ v))

/-! ### One value -/

/-- A plain value stands as a word where it needs no quotes, and else between backticks. -/
theorem IsPlainValue.cases (h : IsPlainValue v) :
    v.IsName ∧ Quoting.quote v = v ∧ nameToken v = .word v ∨
      ('`' ∉ v ∧ '\\' ∉ v) ∧ Quoting.quote v = Quoting.between .backtick v ∧
        nameToken v = .quote (Quoting.between .backtick v) := by
  have marks (tick : '`' ∉ v) : Quoting.enclose .all v = Quoting.between .backtick v := by
    rw [Quoting.enclose, if_pos (by simpa using tick)]
  cases quoted : Quoting.mustQuote v with
  | false =>
      left
      have name : v.IsName := h.resolve_right (by simp [quoted])
      exact ⟨name, by simp [Quoting.quote, Quoting.quoteWith, quoted], by simp [nameToken, quoted]⟩
  | true =>
      right
      have lacks : '`' ∉ v ∧ '\\' ∉ v := by
        rcases h with name | ⟨-, lacks⟩
        · exact ⟨name.not_mem (by decide), name.not_mem (by decide)⟩
        · exact lacks
      exact ⟨lacks, by simp [Quoting.quote, Quoting.quoteWith, quoted, marks lacks.1],
        by simp [nameToken, quoted, marks lacks.1]⟩

theorem IsPlainValue.lacksMark (h : IsPlainValue v) : Quoting.LacksMark v := by
  rcases h with name | ⟨-, tick, -⟩
  · exact lacksMark_of_isName name
  · exact ⟨.backtick, tick⟩

theorem spells_quote (h : IsPlainValue v) : Spells levels (Quoting.quote v) [nameToken v] := by
  rcases h.cases with ⟨name, text, token⟩ | ⟨⟨tick, -⟩, text, token⟩
  · rw [text, token]
    exact .name name
  · have quote : Spells levels (Quoting.enclose .all v) [.quote (Quoting.enclose .all v)] :=
      .quote h.lacksMark
    rw [Quoting.enclose, if_pos (by simpa using tick)] at quote
    rwa [text, token]

theorem passed_quote (h : IsPlainValue v) : Lexer.Scan.Passed (Quoting.quote v) := by
  rcases h.cases with ⟨name, text, -⟩ | ⟨⟨tick, slash⟩, text, -⟩
  · rw [text]
    exact Lexer.Scan.passed_inert fun c hc => Lexer.isInert_of_isNameChar (name.chars c hc)
  · rw [text]
    exact Lexer.Scan.passed_between_of_not_mem tick (Text.endsInEscape_of_not_mem slash)

theorem value_nameToken_of_plain (h : IsPlainValue v) : (nameToken v).value = v := by
  rcases h.cases with ⟨-, -, token⟩ | ⟨⟨tick, -⟩, -, token⟩
  · rw [token]
    rfl
  · rw [token, Token.value, Token.valueWith, Quoting.unquoteWith_between]
    exact Escape.remove_of_not_mem .all tick

theorem hasText_comma_nameToken (h : IsPlainValue v) : (nameToken v).hasText "," = false := by
  rcases h.cases with ⟨name, -, token⟩ | ⟨-, -, token⟩
  · have other : v ≠ [','] := name.ne ⟨',', by simp, by decide⟩
    simpa [token, Token.hasText, Token.text?] using other
  · simp [token, Token.hasText, Token.text?, Quoting.between, QuoteMark.char]

/-! ### Forms with an operator -/

/-- The operator in front of at most one value. -/
def equality (negated : Bool) : Text := if negated then "!=" else ['=']

/-- The characters of the operator are tokens of their own. -/
theorem lexes_equality (hl : IsLabel label) : Lexes levels (label ++ equality negated)
    (labelTokens label ++ (equality negated).map fun c => .word [c]) := by
  cases negated with
  | false => exact lexes_label hl (by simp)
  | true =>
      have mark : Lexes levels (label ++ ['!']) (labelTokens label ++ [.word ['!']]) :=
        lexes_label hl (by simp)
      have whole := mark.append (.separator (c := '=') (by simp))
      simpa [equality] using whole

theorem tight_equality (hl : IsLabel label) : Text.Tight (label ++ equality negated) := by
  have sign : Text.Tight (equality negated) := by cases negated <;> exact ⟨by decide, by decide⟩
  exact sign.append_left fun c hc => Text.isBlank_of_isNameChar (hl c (List.mem_of_mem_head? hc))

theorem operatorAt?_equality (h : ∀ c ∈ q.head?, Text.isBlank c = false ∧ c ≠ '~') :
    operatorAt? (equality negated ++ q) = some (equality negated, q) := by
  cases negated with
  | true => rfl
  | false =>
      cases q with
      | nil => rfl
      | cons c q =>
          have start := h c (by simp)
          have plain : (c :: q).dropWhile Text.isBlank = c :: q :=
            List.dropWhile_cons_of_neg (by simp [start.1])
          simp [equality, operatorAt?, plain, start.2]

/-- Behind an operator stands the first value of the text, if there is one. -/
theorem ofText_equality (hl : IsLabel label) {last : Token}
    (h : (tokenize (label ++ (equality negated ++ q))).getLast? = some last)
    (noBracket : last.bracket? = none) (start : ∀ c ∈ q.head?, Text.isBlank c = false ∧ c ≠ '~') :
    ofText (label ++ (equality negated ++ q)) =
      { label, negated, values := firstValue q.trim } := by
  have noPattern : (equality negated).contains '~' = false := by cases negated <;> decide
  have sign : negations.contains (equality negated) = negated := by cases negated <;> decide
  rw [ofText_of_getLast? h noBracket, ofOperator_append hl (operatorAt?_equality start), noPattern,
    sign]
  rfl

theorem ofText_no_value (hl : IsLabel label) :
    ofText (label ++ equality negated) = { label, negated, values := [] } := by
  have spells : Spells 63 (label ++ equality negated) _ :=
    .of_lexes (tight_equality hl) (lexes_equality hl)
  have last : (tokenize (label ++ (equality negated ++ []))).getLast? = some (.word ['=']) := by
    rw [List.append_nil, tokenize, Lexer.maxNesting, spells.tokensWithin_eq]
    cases negated <;> simp [equality]
  have read := ofText_equality hl last rfl (by simp)
  rwa [List.append_nil] at read

theorem ofText_one_value (hl : IsLabel label) (hv : IsPlainValue v) :
    ofText (label ++ (equality negated ++ Quoting.quote v)) =
      { label, negated, values := [v] } := by
  have value : Spells 63 (Quoting.quote v) [nameToken v] := spells_quote hv
  have spells : Spells 63 (label ++ equality negated ++ Quoting.quote v) _ :=
    .append_left (lexes_equality hl) (tight_equality hl).first value
  have last : (tokenize (label ++ (equality negated ++ Quoting.quote v))).getLast? =
      some (nameToken v) := by
    rw [← List.append_assoc, tokenize, Lexer.maxNesting, spells.tokensWithin_eq]
    simp
  have noBracket : (nameToken v).bracket? = none := by
    unfold nameToken
    split <;> rfl
  have start : ∀ c ∈ (Quoting.quote v).head?, Text.isBlank c = false ∧ c ≠ '~' := by
    intro c hc
    refine ⟨value.tight.first c hc, ?_⟩
    rintro rfl
    rcases hv.cases with ⟨name, text, -⟩ | ⟨-, text, -⟩
    · rw [text] at hc
      exact name.head?_ne (by decide) hc
    · rw [text] at hc
      exact absurd hc (by simp [Quoting.between, QuoteMark.char])
  have read : firstValue (Quoting.quote v).trim = [v] := by
    rw [value.tight.trim_eq, firstValue, tokenize, Lexer.maxNesting, value.tokensWithin_eq]
    simp [value_nameToken_of_plain hv]
  rw [ofText_equality hl last noBracket start, read]

/-! ### The form with a bracket -/

/-- The values in quotes where they need them, with commas between. -/
def valueList (values : List Text) : Text := Text.join "," (values.map Quoting.quote)

/-- The tokens of a list of values. -/
def valueTokens (values : List Text) : List Token :=
  (values.map nameToken).intersperse (.word [','])

/-- The word in front of several values. -/
def listWord (negated : Bool) : Text := if negated then "not_in" else "in"

/-- The word and the bracket with several values. -/
def listText (negated : Bool) (values : List Text) : Text :=
  listWord negated ++ ' ' :: '(' :: (valueList values ++ [')'])

/-- The token of a bracket with several values. -/
def listToken (values : List Text) : Token :=
  .bracket [] ('(' :: (valueList values ++ [')'])) (valueTokens values)

theorem isName_listWord : (listWord negated).IsName := by
  cases negated <;> decide

theorem spells_valueList (hne : values ≠ []) (hv : ∀ v ∈ values, IsPlainValue v) :
    Spells levels (valueList values) (valueTokens values) := by
  induction values with
  | nil => contradiction
  | cons v values ih =>
      have first : Spells levels (Quoting.quote v) [nameToken v] := spells_quote (hv v (by simp))
      cases values with
      | nil => exact first
      | cons w values =>
          have rest := ih (by simp) fun u hu => hv u (by simp [hu])
          have comma : Text.Tight [','] := .singleton (by decide)
          exact .append_left (first.append_separator (c := ',') (by simp))
            (first.tight.append comma).first rest

theorem passed_valueList (hv : ∀ v ∈ values, IsPlainValue v) :
    Lexer.Scan.Passed (valueList values) := by
  apply Text.join_of (P := Lexer.Scan.Passed)
  · exact fun _ _ => rfl
  · exact .append
  · exact Lexer.Scan.passed_inert (by decide)
  · intro q hq
    obtain ⟨v, mem, rfl⟩ := List.mem_map.mp hq
    exact passed_quote (hv v mem)

theorem filter_intersperse {p : Token → Bool} {separator : Token} (drop : p separator = false)
    {ts : List Token} (keep : ∀ t ∈ ts, p t = true) :
    (ts.intersperse separator).filter p = ts := by
  induction ts with
  | nil => rfl
  | cons t ts ih =>
      have first := keep t (by simp)
      have rest := ih fun u hu => keep u (by simp [hu])
      cases ts with
      | nil => simp [first]
      | cons u ts =>
          rw [List.intersperse_cons_cons]
          simp [first, drop, rest]

/-- The values of the tokens of a list, the commas left out. -/
theorem values_valueTokens (hv : ∀ v ∈ values, IsPlainValue v) :
    ((valueTokens values).filter fun t => t.isValue && !t.hasText ",").map Token.value =
      values := by
  have keep : ∀ t ∈ values.map nameToken, (t.isValue && !t.hasText ",") = true := by
    intro t ht
    obtain ⟨v, mem, rfl⟩ := List.mem_map.mp ht
    rw [isValue_nameToken, hasText_comma_nameToken (hv v mem)]
    rfl
  rw [valueTokens, filter_intersperse rfl keep, List.map_map]
  exact (List.map_congr_left fun v mem => value_nameToken_of_plain (hv v mem)).trans
    (List.map_id values)

theorem spells_listText (hne : values ≠ []) (hv : ∀ v ∈ values, IsPlainValue v) :
    Spells 63 (listText negated values) [.word (listWord negated), listToken values] := by
  have opening : Text.Tight ['('] := .singleton (by decide)
  have closing : Text.Tight [')'] := .singleton (by decide)
  have bracket : Lexes 63 ('(' :: (valueList values ++ [')'])) _ :=
    Lexes.capture (w := []) (o := '(') (d := ')') rfl rfl (by simp) (passed_valueList hv).captured
  rw [(spells_valueList hne hv).tokensWithin_eq] at bracket
  exact (Spells.name isName_listWord).space
    (.of_lexes (by simpa using opening.around (valueList values) closing) bracket)

/-- A label has a token of its own unless it is empty. -/
theorem tokenize_list (hl : IsLabel label) (hne : values ≠ []) (hv : ∀ v ∈ values, IsPlainValue v) :
    tokenize (label ++ ' ' :: listText negated values) =
      labelTokens label ++ [.word (listWord negated), listToken values] := by
  have list : Spells 63 (listText negated values) _ := spells_listText hne hv
  unfold labelTokens
  split
  · next empty =>
    have trimmed : Text.trim (' ' :: listText negated values) =
        (listText negated values).trim := rfl
    rw [empty, List.nil_append, List.nil_append, ← list.tokensWithin_eq, tokenize, Lexer.maxNesting,
      Lexer.tokensWithin, Lexer.tokensWithin, Lexer.lexemes, trimmed]
    rfl
  · next named => exact ((Spells.name (hl.isName named)).space list).tokensWithin_eq

theorem ofText_list (hl : IsLabel label) (named : label ≠ []) (hne : values ≠ [])
    (hv : ∀ v ∈ values, IsPlainValue v) :
    ofText (label ++ ' ' :: listText negated values) = { label, negated, values } := by
  have sign : negations.contains (listWord negated) = negated := by cases negated <;> decide
  have tokens : tokenize (label ++ ' ' :: listText negated values) = _ := tokenize_list hl hne hv
  rw [labelTokens, if_neg named] at tokens
  rw [ofText_of_tokens tokens, sign, values_valueTokens hv]

/-- Without a label, the word in front of the bracket is read as one. -/
theorem ofText_list_nil (hne : values ≠ []) (hv : ∀ v ∈ values, IsPlainValue v) :
    ofText (' ' :: listText negated values) =
      { label := listWord negated, negated := false, values } := by
  have tokens : tokenize ([] ++ ' ' :: listText negated values) = _ :=
    tokenize_list isLabel_nil hne hv
  rw [List.nil_append] at tokens
  rw [ofText, tokens]
  change (⟨listWord negated, false, ((valueTokens values).filter
    fun t => t.isValue && !t.hasText ",").map Token.value⟩ : StreamSelector) = _
  rw [values_valueTokens hv]

/-! ### All selectors -/

theorem text_several {v w : Text} {vs : List Text} :
    text { label, negated, values := v :: w :: vs } =
      label ++ ' ' :: listText negated (v :: w :: vs) := by
  cases negated <;> simp [text, listText, listWord, valueList]

/-- A selector comes back as it is, unless it has several values and no label. Operators, commas,
brackets and quote marks in a value make no difference, for such a value is put in quotes. -/
theorem ofText_text_iff {s : StreamSelector} (hl : IsLabel s.label)
    (hv : ∀ v ∈ s.values, IsPlainValue v) :
    ofText s.text = s ↔ s.label ≠ [] ∨ s.values.length ≤ 1 := by
  obtain ⟨label, negated, values⟩ := s
  match values with
  | [] =>
      exact iff_of_true (ofText_no_value hl) (.inr (by simp))
  | [v] =>
      have read : ofText (label ++ (equality negated ++ Quoting.quote v)) = _ :=
        ofText_one_value hl (hv v (by simp))
      rw [← List.append_assoc] at read
      exact iff_of_true read (.inr (by simp))
  | v :: w :: vs =>
      rw [text_several]
      by_cases named : label = []
      · subst named
        refine iff_of_false ?_ (by simp)
        rw [List.nil_append, ofText_list_nil (by simp) hv]
        exact fun same => isName_listWord.nonempty (congrArg StreamSelector.label same)
      · exact iff_of_true (ofText_list hl named (by simp) hv) (.inl named)

/-- Values that hold operators, separators and closers, or that are the words of a selector. -/
theorem ofText_text_operators :
    let s : StreamSelector :=
      { label := "k8s.in"
        negated := true
        values := ["in", "a", "b != c", " in (", "x), not_in (\"y\", '", "=~|"] }
    (IsLabel s.label ∧ ∀ v ∈ s.values, IsPlainValue v) ∧ ofText s.text = s := by
  intro s
  have label : IsLabel s.label := by decide
  have plain : ∀ v ∈ s.values, IsPlainValue v := by decide
  exact ⟨⟨label, plain⟩, (ofText_text_iff label plain).mpr (.inl (by simp [s]))⟩

/-- Without a label the negation is lost and its word becomes the label. -/
theorem ofText_text_unlabelled :
    let s : StreamSelector := { label := [], negated := true, values := ["a", "b"] }
    (IsLabel s.label ∧ ∀ v ∈ s.values, IsPlainValue v) ∧
      ofText s.text = { label := "not_in", negated := false, values := ["a", "b"] } ∧
      ofText s.text ≠ s := by
  intro s
  have plain : ∀ v ∈ s.values, IsPlainValue v := by decide
  have read : ofText s.text = { label := "not_in", negated := false, values := ["a", "b"] } := by
    have text : s.text = ' ' :: listText true ["a", "b"] := text_several
    rw [text]
    exact ofText_list_nil (by simp) plain
  refine ⟨⟨isLabel_nil, plain⟩, read, ?_⟩
  rw [read]
  decide

end StreamSelector

end LogQuery
