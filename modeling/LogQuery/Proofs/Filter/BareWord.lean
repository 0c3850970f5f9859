import LogQuery.Proofs.Filter.Boolean

/-!
# Words of the default field

A query may be a single word. Where the word collides with a keyword it is written in quotes
and read back as it was. The list that decides this knows every id, but not the other words
under which pipes are read: these stand without quotes and come back as a pipe or as nothing.
-/

namespace LogQuery

open Lexer (Spells)

/-- Letters, digits and underscores of ASCII, at least one. -/
structure IsPlainWord (w : Text) : Prop where
  nonempty : w ≠ []
  chars : ∀ c ∈ w, (c.isAlphanum || c == '_') = true

instance (w : Text) : Decidable (IsPlainWord w) :=
  decidable_of_iff (w ≠ [] ∧ w.all (fun c => c.isAlphanum || c == '_') = true)
    ⟨fun h => ⟨h.1, List.all_eq_true.mp h.2⟩, fun h => ⟨h.nonempty, List.all_eq_true.mpr h.chars⟩⟩

theorem IsPlainWord.isName {w : Text} (h : IsPlainWord w) : w.IsName where
  nonempty := h.nonempty
  chars c hc := by simp [Text.isNameChar, h.chars c hc]

/-- The words that open a pipe without being its keyword. -/
def pipeAliases : List Text := ["eval", "keep", "filter", "where"]

/-- The filter for a word in the default field. -/
def wordFilter (w : Text) : Operation :=
  { id := .word, params := [.text "_msg", .text w, .flag false, .flag false] }

variable {w : Text}

/-! ### In quotes -/

theorem not_alias_of_mustQuote (h : w.IsName) (quoted : Quoting.mustQuote w = true) :
    Text.lower w ∉ pipeAliases := by
  intro hw
  have bare : ∀ a ∈ pipeAliases, (OperationId.all.any (fun id => id.keyword == a) ||
      Quoting.clauseWords.contains a || a.any Quoting.isReserved) = false := by
    decide
  rw [Quoting.mustQuote, h.trim_eq] at quoted
  exact absurd quoted (by simp only [bare _ hw]; decide)

theorem isFieldName_default : IsFieldName "_msg" where
  toIsName := by decide
  unreserved := by decide

theorem read_write_quoted (h : w.IsName) (quoted : Quoting.mustQuote w = true) :
    Query.readOperations (writeOperations [wordFilter w]) "_msg" = [wordFilter w] := by
  have quotable : IsQuotable w := .text quoted (h.ne ⟨'*', by simp, by decide⟩)
    (h.startsWith_eq (by decide)) (lacksMark_of_isName h)
  obtain ⟨body, filter⟩ := word_body (s := {}) rfl isFieldName_default quotable false
  have form := filter.toForm rfl isFieldName_default
  exact read_write_clauses (w := {}) rfl (.cons (.filter form) .nil)

/-! ### Without quotes -/

theorem writeOperations_bare (h : w.IsName) (bare : Quoting.mustQuote w = false) :
    writeOperations [wordFilter w] = w := by
  have text : (define {} .word).write (wordFilter w) [] = w := by
    have star : w ≠ ['*'] := h.ne ⟨'*', by simp, by decide⟩
    have sign : w.startsWith ['$'] = false := h.startsWith_eq (by decide)
    change Filter.Word.write {} (wordFilter w) [] = w
    simp [Filter.Word.write, wordFilter, Operation.text, Operation.flag, Param.toText,
      Param.toFlag, sign, star, h.nonempty, afterFilter, Scope.fieldMark, Scope.isDefaultField,
      Scope.quote, Quoting.quoteWith, bare, flagClause]
  have written : writeOperations [wordFilter w] = ((define {} .word).write (wordFilter w) []).trim :=
    writeOperations_filter rfl rfl
  rw [written, text, h.trim_eq]

theorem isInner_bare (h : w.IsName) (bare : Quoting.mustQuote w = false) :
    (Token.word w).isInner = true := by
  have inner := isInner_nameToken h
  rwa [nameToken, if_neg (by simp [bare])] at inner

/-- A word without quotes is a segment of its own. -/
theorem readOperations_bare (h : w.IsName) (bare : Quoting.mustQuote w = false) :
    Query.readOperations (writeOperations [wordFilter w]) "_msg" =
      Query.readSegment {} false [.word w] := by
  rw [writeOperations_bare h bare]
  have spells : Spells 63 w [.word w] := .name h
  exact Query.operations_segment (by simp) (by simp [isInner_bare h bare])
    (tokenize_of_spells spells)

/-- A name under which neither an operation nor a pipe is read, in any case of its letters. -/
structure IsFree (w : Text) : Prop extends w.IsName where
  keyword : ∀ id : OperationId, id.keyword ≠ Text.lower w
  unpiped : Text.lower w ∉ pipeAliases

instance (w : Text) : Decidable (IsFree w) :=
  decidable_of_iff (w.IsName ∧ (OperationId.all.all fun id => id.keyword != Text.lower w) = true ∧
      pipeAliases.contains (Text.lower w) = false) (by
    constructor
    · rintro ⟨name, keyword, unpiped⟩
      refine { name with keyword := fun id => ?_, unpiped := by simpa using unpiped }
      simpa using List.all_eq_true.mp keyword id (by cases id <;> decide)
    · intro h
      refine ⟨h.toIsName, List.all_eq_true.mpr fun id _ => ?_, by simpa using h.unpiped⟩
      simpa using h.keyword id)

theorem isFree_bare (h : w.IsName) (bare : Quoting.mustQuote w = false)
    (hw : Text.lower w ∉ pipeAliases) : IsFree w where
  toIsName := h
  keyword := by
    have other := Text.keyword_ne_of_mustQuote bare
    rwa [h.trim_eq] at other
  unpiped := hw

namespace IsFree

theorem named?_eq (h : IsFree w) (c : Category) : OperationId.named? c w = none := by
  simp [OperationId.named?, h.keyword]

theorem pipeOfKeyword?_eq (h : IsFree w) : Query.pipeOfKeyword? (Text.lower w) = none := by
  have unpiped := h.unpiped
  simp only [pipeAliases, List.mem_cons, List.not_mem_nil, or_false, not_or] at unpiped
  obtain ⟨eval, keep, -, -⟩ := unpiped
  have stable : OperationId.pipe? (Text.lower w) = OperationId.pipe? w := by
    rw [OperationId.pipe?, OperationId.pipe?, OperationId.named?, OperationId.named?,
      Text.lower_lower h.small]
  rw [Query.pipeOfKeyword?, beq_false_of_ne eval, beq_false_of_ne keep, stable]
  exact h.named?_eq .pipes

/-- Neither a free word nor a call of that name opens a pipe. -/
theorem run_readPipe? {s : Scope} {t : Token} (h : IsFree w)
    (ht : t = .word w ∨ ∃ raw items, t = .bracket w raw items) (ts : List Token) :
    (Query.readPipe? s).run (t :: ts) = (none, t :: ts) := by
  have unpiped := h.unpiped
  simp only [pipeAliases, List.mem_cons, List.not_mem_nil, or_false, not_or] at unpiped
  obtain ⟨-, -, filter, other⟩ := unpiped
  rw [Query.readPipe?, Reader.run_bind, Reader.run_peek]
  rcases ht with rfl | ⟨raw, items, rfl⟩
  · dsimp only [List.head?_cons]
    rw [beq_false_of_ne filter, beq_false_of_ne other, h.pipeOfKeyword?_eq]
    rfl
  · dsimp only [List.head?_cons]
    rw [beq_false_of_ne filter, beq_false_of_ne other, h.pipeOfKeyword?_eq]
    rfl

end IsFree

theorem wordStarts_name {c : Char} (h : w.IsName) (hc : Text.isNameChar c = false) :
    Query.wordStarts (.word w) c = false := by
  have := h.head?_ne hc
  simpa [Query.wordStarts, Token.word?] using this

theorem isWord_name {c : Char} (h : w.IsName) (hc : Text.isNameChar c = false) :
    (Token.word w).isWord [c] = false := by
  have : w ≠ [c] := h.ne ⟨c, by simp, hc⟩
  simpa [Token.isWord, Token.word?] using this

theorem IsFree.startsWord (h : IsFree w) : Query.StartsWord false (.word w) [] where
  bracket := rfl
  sign := by
    have name := h.toIsName
    have star : w ≠ ['*'] := h.ne ⟨'*', by simp, by decide⟩
    have starred : w.startsWith ['*'] = false := h.startsWith_eq (by decide)
    simp [Query.signFilter?, wordStarts_name name, isWord_name name, Text.isNameChar,
      Filter.Substring.startsHere, star, starred]
  member := rfl
  call := rfl
  compare := ⟨wordStarts_name h.toIsName (by decide), wordStarts_name h.toIsName (by decide)⟩
  negation := ⟨isWord_name h.toIsName (by decide), isWord_name h.toIsName (by decide)⟩
  stats := h.named?_eq .stats

theorem readNext_bare {s : Scope} (h : w.IsName) (bare : Quoting.mustQuote w = false)
    (hw : Text.lower w ∉ pipeAliases) :
    (Query.readNext s false).run [.word w] =
      ([{ id := .word,
          params := [.text s.defaultField, .text w, .flag false, .flag false] }], []) := by
  have noField : (Reader.takeFieldName s).run [.word w] = (none, [.word w]) :=
    Reader.run_takeFieldName_none rfl (by simp)
  have free := isFree_bare h bare hw
  have word := Query.readFilterRound_word (s := s) none (by simp) free.startsWord
  have read : (readOperation s .word none).run [.word w] =
      ({ id := .word,
         params := [.text s.defaultField, .text w, .flag false, .flag false] }, []) := by
    have noStar : w.endsWith ['*'] = false := h.endsWith_eq (by decide)
    simp [readOperation, define, Filter.Word.definition, Filter.Word.read,
      Filter.Word.Head.ofToken, Filter.Word.endsInStar, noStar, Scope.fieldParam,
      Scope.fieldOrDefault]
  rw [read] at word
  rw [Query.readNext, Reader.run_bind, noField]
  dsimp only
  rw [if_pos (by simp), Reader.run_bind, free.run_readPipe? (.inl rfl)]
  exact Query.readFilter_run word

/-! ### Aliases -/

/-- An alias opens a pipe; of a filter stage nothing is left when it holds no filter. -/
theorem run_readPipe?_alias (s : Scope) (hw : Text.lower w ∈ pipeAliases) :
    (Query.readPipe? s).run [.word w] = (some [], []) ∨
      ∃ op : Operation, op.id.category = .pipes ∧
        (Query.readPipe? s).run [.word w] = (some [op], []) := by
  simp only [pipeAliases, List.mem_cons, List.not_mem_nil, or_false] at hw
  rw [Query.readPipe?, Reader.run_bind, Reader.run_peek]
  dsimp only [List.head?_cons]
  rcases hw with lower | lower | lower | lower
  · rw [lower]
    exact .inr ⟨{ id := .math, params := [.text []] }, rfl, rfl⟩
  · rw [lower]
    exact .inr ⟨{ id := .fields, params := [.text []] }, rfl, rfl⟩
  · rw [lower]
    exact .inl rfl
  · rw [lower]
    exact .inl rfl

/-- A bare alias is read as a pipe, or as nothing. -/
theorem readSegment_alias {s : Scope} (hw : Text.lower w ∈ pipeAliases) :
    ∀ op ∈ Query.readSegment s false [.word w], op.id ≠ .word := by
  have noField : (Reader.takeFieldName s).run [.word w] = (none, [.word w]) :=
    Reader.run_takeFieldName_none rfl (by simp)
  rcases run_readPipe?_alias s hw with pipe | ⟨op, category, pipe⟩
  · have next : (Query.readNext s false).run [.word w] = ([], []) := by
      simp [Query.readNext, noField, pipe]
    have round : (Query.readSegmentRound s false []).run [.word w] = (.done [], []) := by
      simp [Query.readSegmentRound, next]
    have nothing : Query.readSegment s false [.word w] = [] := by
      rw [Query.readSegment, (Reader.Iterates.done round).run_loop]
    simp [nothing]
  · have next : (Query.readNext s false).run [.word w] = ([op], []) := by
      simp [Query.readNext, noField, pipe]
    have notStats : op.id.category ≠ .stats := by simp [category]
    rw [Query.readSegment_run (by simp) next notStats]
    intro o ho word
    rw [List.mem_singleton.mp ho] at word
    rw [word] at category
    contradiction

/-- A word of the default field is read back as it was written exactly when it is not another
word for a pipe. -/
theorem readOperations_writeOperations_word_iff (h : IsPlainWord w) :
    Query.readOperations (writeOperations [wordFilter w]) "_msg" = [wordFilter w] ↔
      Text.lower w ∉ pipeAliases := by
  have name := h.isName
  cases quoted : Quoting.mustQuote w with
  | true =>
      exact iff_of_true (read_write_quoted name quoted) (not_alias_of_mustQuote name quoted)
  | false =>
      rw [readOperations_bare name quoted]
      constructor
      · intro read hw
        have other := readSegment_alias (s := {}) hw
        rw [read] at other
        exact other (wordFilter w) (by simp) rfl
      · intro hw
        have notStats : (wordFilter w).id.category ≠ .stats := by
          simp [wordFilter, OperationId.category]
        exact Query.readSegment_run (by simp) (readNext_bare name quoted hw) notStats

/-- A word in mixed case that is quoted, and one that is not. -/
theorem readOperations_writeOperations_words :
    (IsPlainWord "Sort_By1" ∧ IsPlainWord "AND") ∧
      (Query.readOperations (writeOperations [wordFilter "Sort_By1"]) "_msg" =
          [wordFilter "Sort_By1"] ↔ Text.lower "Sort_By1" ∉ pipeAliases) ∧
        (Query.readOperations (writeOperations [wordFilter "AND"]) "_msg" = [wordFilter "AND"] ↔
          Text.lower "AND" ∉ pipeAliases) :=
  have sort : IsPlainWord "Sort_By1" := by decide
  have and : IsPlainWord "AND" := by decide
  ⟨⟨sort, and⟩, readOperations_writeOperations_word_iff sort,
    readOperations_writeOperations_word_iff and⟩

/-- A single word without quotes that reads as nothing at all. -/
theorem readOperations_filter_word :
    IsPlainWord "filter" ∧ writeOperations [wordFilter "filter"] = ("filter" : Text) ∧
      Query.readOperations (writeOperations [wordFilter "filter"]) "_msg" = [] := by
  exact ⟨by decide, rfl, rfl⟩

end LogQuery
