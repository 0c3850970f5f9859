import LogQuery.Proofs.Filter.Field
import LogQuery.Proofs.Query.Written

/-!
# Boolean queries

Word, exact and regular expression filters joined by connectives. Their values are written in
quotes, so no value is read as anything but itself: each filter is a form, and a list of them
in any order is read back as it was written.
-/

namespace LogQuery

open Lexer (Lexes Spells)

/-- A value that filters write in quotes: the empty text, or one that collides with the query
syntax, apart from a star alone and from variables. One quote mark must be free. -/
inductive IsQuotable : Text → Prop
  | empty : IsQuotable []
  | text {v : Text} (quoted : Quoting.mustQuote v = true) (notStar : v ≠ ['*'])
      (notVariable : v.startsWith "$" = false) (lacksMark : Quoting.LacksMark v) : IsQuotable v

namespace IsQuotable

variable {s : Scope} {v : Text}

theorem nonempty_of_mustQuote (h : Quoting.mustQuote v = true) : v ≠ [] := by
  rintro rfl
  exact absurd h (by decide)

theorem exists_quotes (h : IsQuotable v) (hs : s.escape = .all) :
    ∃ q, Quotes q v ∧ s.quoteOrEmpty v = q := by
  cases h with
  | empty => exact ⟨_, .empty, rfl⟩
  | text quoted _ _ lacksMark =>
      refine ⟨_, .enclose lacksMark, ?_⟩
      have : v.isEmpty = false := by simpa using nonempty_of_mustQuote quoted
      simp [Scope.quoteOrEmpty, this, Scope.quote, Quoting.quoteWith, quoted, hs]

theorem ne_star (h : IsQuotable v) : v ≠ ['*'] := by
  cases h with
  | empty => simp
  | text _ notStar _ _ => exact notStar

theorem startsWith_eq (h : IsQuotable v) : v.startsWith ['$'] = false := by
  cases h with
  | empty => rfl
  | text _ _ notVariable _ => exact notVariable

end IsQuotable

/-! ### A star behind a quote -/

/-- The token of a star that marks the start of a longer word. -/
def starTokens (starred : Bool) : List Token := if starred then [.word ['*']] else []

theorem spells_starred {q v : Text} (h : Quotes q v) (starred : Bool) :
    Spells 63 (q ++ flagClause "*" starred) (.quote q :: starTokens starred) := by
  cases starred with
  | false => simpa [flagClause, starTokens] using h.spells
  | true => exact .append_left h.lexes h.tight.first .star

/-- The star is taken if it stands there; the tokens behind it have none to offer. -/
theorem run_eatWord_star {rest : List Token} (hrest : ∀ t ∈ rest.head?, t.clings = false)
    (starred : Bool) : (Reader.eatWord "*").run (starTokens starred ++ rest) = (starred, rest) := by
  cases starred with
  | true => rfl
  | false =>
      apply Reader.run_eatWord_of_head?
      intro t ht
      have free := hrest t ht
      cases t with
      | word w =>
          rw [Token.isKeyword_word]
          exact Text.sameFold_star (by simpa [Token.clings] using free)
      | _ => rfl

theorem isInner_starTokens (starred : Bool) : ∀ t ∈ starTokens starred, t.isInner = true := by
  cases starred <;> decide

/-! ### The three filters -/

section Forms

variable {s : Scope} {f v : Text}

theorem head?_starTokens {rest : List Token} (hrest : ∀ t ∈ rest.head?, t.clings = false)
    (starred : Bool) : ∀ t ∈ (starTokens starred ++ rest).head?, t ≠ .field [] := by
  cases starred with
  | true => simp [starTokens]
  | false =>
      intro t ht heq
      have := hrest t ht
      rw [heq] at this
      exact absurd this (by decide)

theorem word_body (hs : s.escape = .all) (hf : IsFieldName f) (hv : IsQuotable v)
    (starred : Bool) : ∃ body, FilterBody s f
      { id := .word, params := [.text f, .text v, .flag false, .flag starred] } body := by
  obtain ⟨q, quotes, written⟩ := hv.exists_quotes hs
  have text : (define s .word).write
      { id := .word, params := [.text f, .text v, .flag false, .flag starred] } [] =
      s.fieldMark f ++ (q ++ flagClause "*" starred) := by
    rw [← written]
    simp [define, Filter.Word.definition, Filter.Word.write, Operation.text, Operation.flag,
      Param.toText, Param.toFlag, hv.startsWith_eq, hv.ne_star, afterFilter, Scope.quoteOrEmpty]
  refine ⟨.quote q :: starTokens starred, ?_⟩
  exact
    { enabled := rfl
      category := rfl
      spells := ⟨_, spells_starred quotes starred, text⟩
      inner := by
        simpa [quotes.isInner] using isInner_starTokens starred
      nonempty := by simp
      first := by simp [Token.clings]
      name := fun rest hrest => Reader.run_takeFieldName_none rfl (head?_starTokens hrest starred)
      pipe := fun rest => rfl
      read := by
        intro onlyFilters rest hrest
        rw [List.cons_append, Query.readFilterRound_word _ (Scope.namedField_ne hf)
          (Query.startsWord_quote onlyFilters q _)]
        have unquoted : s.unquote q = v := quotes.unquote_eq hs
        have star : (Reader.eatWord ['*']).run (starTokens starred ++ rest) = (starred, rest) :=
          run_eatWord_star hrest starred
        simp [readOperation, define, Filter.Word.definition, Filter.Word.read,
          Filter.Word.Head.ofToken, unquoted, star, Scope.fieldParam_namedField hf.nonempty] }

/-- The sign of an exact filter. -/
def equalSign (negated : Bool) : Text := if negated then ['!', '='] else ['=']

def equalTokens (negated : Bool) : List Token :=
  if negated then [.word ['!'], .word ['=']] else [.word ['=']]

theorem isInner_equalTokens (negated : Bool) : ∀ t ∈ equalTokens negated, t.isInner = true := by
  cases negated <;> decide

theorem lexes_equalSign (negated : Bool) : Lexes 63 (equalSign negated) (equalTokens negated) := by
  have equal : Lexes 63 ['='] [.word ['=']] := .separator (by simp)
  cases negated with
  | false => exact equal
  | true => exact (Lexes.separator (c := '!') (by simp)).append equal

/-- An exact filter, given the text of its value, the tokens of that and how they are taken. -/
theorem exact_body_of {x : Text} {xs : List Token} {negated starred : Bool} (hf : IsFieldName f)
    (spells : Spells 63 x xs)
    (written : (define s .exact).write
      { id := .exact, params := [.text f, .text v, .flag negated, .flag starred] } [] =
        s.fieldMark f ++ (equalSign negated ++ x))
    (inner : ∀ t ∈ xs, t.isInner = true) (noField : ∀ t ∈ xs.head?, t ≠ .field [])
    (take : ∀ rest, (∀ t ∈ rest.head?, t.clings = false) →
      (Filter.Exact.takeStarred s).run (xs ++ rest) = ((v, starred), rest)) :
    FilterBody s f { id := .exact, params := [.text f, .text v, .flag negated, .flag starred] }
      (equalTokens negated ++ xs) where
  enabled := rfl
  category := rfl
  spells := by
    have trimmed : (equalSign negated).Trimmed := by cases negated <;> decide
    exact ⟨_, .append_left (lexes_equalSign negated) trimmed.first spells, written⟩
  inner := by
    intro t ht
    rcases List.mem_append.mp ht with ht | ht
    · exact isInner_equalTokens negated t ht
    · exact inner t ht
  nonempty := by cases negated <;> simp [equalTokens]
  first := by cases negated <;> simp [equalTokens, Token.clings]
  name := by
    intro rest hrest
    cases negated with
    | true => rfl
    | false =>
        have head : ∀ t ∈ (xs ++ rest).head?, t ≠ .field [] := by
          intro t ht
          rw [List.head?_append, Option.mem_def, Option.or_eq_some_iff] at ht
          rcases ht with ht | ⟨-, ht⟩
          · exact noField t ht
          · rintro rfl
            exact absurd (hrest _ ht) (by decide)
        exact Reader.run_takeFieldName_none rfl head
  pipe := by
    intro rest
    cases negated <;> rfl
  read := by
    intro onlyFilters rest hrest
    rw [Query.readFilterRound_sign .exact (Scope.namedField_ne hf)
      (by cases negated <;> rfl) (by cases negated <;> rfl)]
    have bang : (Reader.eatWord ['!']).run (equalTokens negated ++ (xs ++ rest)) =
        (negated, .word ['='] :: (xs ++ rest)) := by
      cases negated <;> rfl
    have equal (ts : List Token) : (Reader.eatWord ['=']).run (.word ['='] :: ts) = (true, ts) :=
      Reader.run_eatWord_of_isKeyword rfl
    simp [readOperation, define, Filter.Exact.definition, Filter.Exact.read, bang, equal,
      take rest hrest, Scope.fieldParam_namedField hf.nonempty]

/-- An exact filter with its value in quotes. -/
theorem exact_body_quotes {q : Text} (hs : s.escape = .all) (hf : IsFieldName f)
    (quotes : Quotes q v) (written : s.quoteOrEmpty v = q) (notVariable : v.startsWith ['$'] = false)
    (negated starred : Bool) : FilterBody s f
      { id := .exact, params := [.text f, .text v, .flag negated, .flag starred] }
      (equalTokens negated ++ .quote q :: starTokens starred) := by
  refine exact_body_of hf (spells_starred quotes starred) ?_ ?_ (by simp) fun rest hrest => ?_
  · rw [← written]
    simp [define, Filter.Exact.definition, Filter.Exact.write, Operation.text, Operation.flag,
      Param.toText, Param.toFlag, notVariable, afterFilter, equalSign]
  · simpa [quotes.isInner] using isInner_starTokens starred
  · have star : (Reader.eatWord ['*']).run (starTokens starred ++ rest) = (starred, rest) :=
      run_eatWord_star hrest starred
    simp [Filter.Exact.takeStarred, quotes.unquote_eq hs, star]

theorem exact_body (hs : s.escape = .all) (hf : IsFieldName f) (hv : IsQuotable v)
    (negated starred : Bool) : ∃ body, FilterBody s f
      { id := .exact, params := [.text f, .text v, .flag negated, .flag starred] } body := by
  obtain ⟨q, quotes, written⟩ := hv.exists_quotes hs
  exact ⟨_, exact_body_quotes hs hf quotes written hv.startsWith_eq negated starred⟩

theorem regexp_body (hs : s.escape = .all) (hf : IsFieldName f) (lacksMark : Quoting.LacksMark v)
    (hcase : v.startsWith "(?i)" = false) : FilterBody s f
      { id := .regexp, params := [.text f, .text v, .flag false] }
      [.word ['~'], .quote (Quoting.enclose .all v)] where
  enabled := rfl
  category := rfl
  spells := by
    refine ⟨'~' :: Quoting.enclose .all v, ?_, ?_⟩
    · have tilde : Text.Tight ['~'] := .singleton (by decide)
      exact .of_lexes (tilde.append (Lexer.tight_enclose v))
        (.word_quote tilde (by simp [Lexer.isPlain]) lacksMark)
    · simp [define, Filter.Regexp.definition, Filter.Regexp.write, Operation.text, Operation.flag,
        Param.toText, Param.toFlag, afterFilter, flagClause, Scope.quoteAlways, Quoting.quoteWith,
        hs]
  inner := by
    intro t ht
    simp only [List.mem_cons, List.not_mem_nil, or_false] at ht
    rcases ht with rfl | rfl
    · rfl
    · exact (Quotes.enclose lacksMark).isInner
  nonempty := by simp
  first := by simp [Token.clings]
  name _ _ := rfl
  pipe _ := rfl
  read := by
    intro onlyFilters rest hrest
    have quotes : Quotes (Quoting.enclose .all v) v := .enclose lacksMark
    rw [List.cons_append, List.cons_append, List.nil_append,
      Query.readFilterRound_sign .regexp (Scope.namedField_ne hf) rfl rfl]
    have notComma : (Token.quote (Quoting.enclose .all v)).hasText [','] = false := by
      simpa [Token.hasText, Token.text?] using quotes.ne_separator (c := ',') (by simp)
    have tilde (ts : List Token) : (Reader.eatWord ['~']).run (.word ['~'] :: ts) = (true, ts) :=
      Reader.run_eatWord_of_isKeyword rfl
    have pattern : (Filter.Regexp.takePattern s).run
        (.word ['~'] :: .quote (Quoting.enclose .all v) :: rest) = (v, rest) := by
      simp [Filter.Regexp.takePattern, tilde, Reader.run_takeValueD s [] rfl notComma,
        quotes.value_eq hs]
    have anyCase : v.startsWith Filter.Regexp.anyCaseMark = false := hcase
    simp [readOperation, define, Filter.Regexp.definition, Filter.Regexp.read, pattern, anyCase,
      Scope.fieldParam_namedField hf.nonempty]

end Forms

/-! ### The round trip -/

/-- The operations of a boolean query: connectives, and filters of any field without filters
of its own, with values in quotes. -/
inductive IsBoolean : Operation → Prop
  | connective {id : OperationId} (h : id.category = .operators) : IsBoolean (.marker id)
  | word {f w : Text} (hf : IsFieldName f) (hw : IsQuotable w) (starred : Bool) :
      IsBoolean { id := .word, params := [.text f, .text w, .flag false, .flag starred] }
  | exact {f v : Text} (hf : IsFieldName f) (hv : IsQuotable v) (negated starred : Bool) :
      IsBoolean { id := .exact, params := [.text f, .text v, .flag negated, .flag starred] }
  | regexp {f p : Text} (hf : IsFieldName f) (lacksMark : Quoting.LacksMark p)
      (hcase : p.startsWith "(?i)" = false) :
      IsBoolean { id := .regexp, params := [.text f, .text p, .flag false] }

theorem IsBoolean.exists_clause {s : Scope} (hs : s.escape = .all) {op : Operation}
    (h : IsBoolean op) : ∃ ts, Clause s op ts := by
  cases h with
  | connective h => exact ⟨_, .connective h⟩
  | word hf hw starred =>
      obtain ⟨body, filter⟩ := word_body hs hf hw starred
      exact ⟨_, .filter (filter.toForm hs hf)⟩
  | exact hf hv negated starred =>
      obtain ⟨body, filter⟩ := exact_body hs hf hv negated starred
      exact ⟨_, .filter (filter.toForm hs hf)⟩
  | regexp hf lacksMark hcase =>
      exact ⟨_, .filter ((regexp_body hs hf lacksMark hcase).toForm hs hf)⟩

/-- Boolean queries of any length and order are read back as they were written. -/
theorem readOperations_writeOperations_boolean (ops : List Operation)
    (h : ∀ op ∈ ops, IsBoolean op) :
    Query.readOperations (writeOperations ops) "_msg" = ops := by
  obtain ⟨uss, clauses⟩ : ∃ uss, List.Forall₂ (Clause {}) ops uss :=
    exists_forall₂ fun op hop => (h op hop).exists_clause rfl
  exact read_write_clauses (w := {}) rfl clauses

/-- A negated word of the default field next to a starred value and a pattern of fields whose
names or values collide with keywords. -/
theorem readOperations_writeOperations_mixed :
    let ops : List Operation :=
      [.marker .not,
        { id := .word, params := [.text "_msg", .text "a b", .flag false, .flag true] },
        .marker .or,
        { id := .exact, params := [.text "sort", .text "=|\x60", .flag true, .flag true] },
        { id := .regexp, params := [.text "k8s.pod", .text "^a\\.b$", .flag false] }]
    (∀ op ∈ ops, IsBoolean op) ∧ Query.readOperations (writeOperations ops) "_msg" = ops := by
  intro ops
  have name {f : Text} (hf : f.IsName)
      (unreserved : f ∉ [("_time" : Text), "_stream", "_stream_id"]) : IsFieldName f :=
    { hf with unreserved := unreserved }
  have boolean : ∀ op ∈ ops, IsBoolean op := by
    intro op hop
    simp only [ops, List.mem_cons, List.not_mem_nil, or_false] at hop
    rcases hop with rfl | rfl | rfl | rfl | rfl
    · exact .connective rfl
    · exact .word (name (by decide) (by decide))
        (.text (by decide) (by decide) (by decide) ⟨.backtick, by decide⟩) true
    · exact .connective rfl
    · exact .exact (name (by decide) (by decide))
        (.text (by decide) (by decide) (by decide) ⟨.double, by decide⟩) true true
    · exact .regexp (name (by decide) (by decide)) ⟨.backtick, by decide⟩ (by decide)
  exact ⟨boolean, readOperations_writeOperations_boolean ops boolean⟩

end LogQuery
