import LogQuery.Proofs.Filter.Boolean
import LogQuery.Proofs.Query.Clause
import LogQuery.Proofs.Query.First
import LogQuery.Proofs.Quoting.Phrases

/-!
# Sequences of phrases

A sequence filter lists its phrases in quotes inside a bracket. The list is read back if the
bracket is captured whole. Otherwise the bracket ends at a closer inside some phrase or is never
closed, and the values in it are not the phrases: they have fewer closing characters, or the
closer of the call stands among them.
-/

namespace LogQuery

open Lexer (Lexes Spells)
open Quoting (EscapesMark LacksMark phraseList phraseTokens)

/-- The sequence filter of a field. -/
def sequenceFilter (f : Text) (vs : List Text) : Operation :=
  { id := .sequence, params := .text f :: vs.map .text }

/-- A phrase that is written in quotes. One quote mark must be free. -/
structure IsPhrase (v : Text) : Prop where
  quoted : Quoting.mustQuote v = true
  lacksMark : LacksMark v

/-- A call of a sequence, with the list of its phrases in the bracket. -/
def sequenceCall (vs : List Text) : Text := "seq" ++ '(' :: (phraseList vs ++ [')'])

section Sequence

variable {s : Scope} {f : Text} {vs : List Text}

theorem write_sequence (hs : s.escape = .all) (f : Text) (hvs : ∀ v ∈ vs, IsPhrase v) :
    (define s .sequence).write (sequenceFilter f vs) [] = s.fieldMark f ++ sequenceCall vs := by
  have each : (vs.map Param.text).map (fun p => s.quoteOrEmpty p.toText) =
      vs.map (Quoting.enclose .all) := by
    rw [List.map_map]
    apply List.map_congr_left
    intro v hv
    have quoted := (hvs v hv).quoted
    have nonempty : v ≠ [] := IsQuotable.nonempty_of_mustQuote quoted
    simp [Param.toText, Scope.quoteOrEmpty, nonempty, Scope.quote, Quoting.quoteWith, quoted, hs]
  have keyword : (sequenceFilter f vs).id.keyword = "seq" := rfl
  change afterFilter [] (s.fieldMark f ++ (sequenceFilter f vs).id.keyword ++ "(" ++
    Text.join ", " ((vs.map Param.text).map fun p => s.quoteOrEmpty p.toText) ++ ")") = _
  rw [each, keyword]
  simp [afterFilter, phraseList, sequenceCall]

/-- The sequence of the values that a bracket lists. -/
def listedSequence (s : Scope) (f : Text) (items : List Token) : Operation where
  id := .sequence
  params := .text f :: if (Reader.listedValues s items).isEmpty then [.empty]
    else (Reader.listedValues s items).map .text

theorem readFilterRound_sequence (hf : IsFieldName f) (onlyFilters : Bool) (raw : Text)
    (items us : List Token) :
    (Query.readFilterRound s onlyFilters (s.namedField f) []).run
        (.bracket "seq" raw items :: us) =
      (.done [listedSequence s f items], us) := by
  have call : (Query.readFilterRound s onlyFilters (s.namedField f) []).run
      (.bracket "seq" raw items :: us) = _ :=
    Query.readFilterRound_call .sequence (Scope.namedField_ne hf) rfl rfl rfl rfl
  have field : s.fieldParam (s.namedField f) = .text f := Scope.fieldParam_namedField hf.nonempty
  rw [call, listedSequence, ← field]
  rfl

/-- A call of a sequence is read behind its field, whatever follows it. -/
theorem readNext_sequence (hs : s.escape = .all) (hf : IsFieldName f) (onlyFilters : Bool)
    (raw : Text) (items us : List Token) :
    (Query.readNext s onlyFilters).run (s.fieldTokens f ++ .bracket "seq" raw items :: us) =
      ([listedSequence s f items], us) :=
  Query.readNext_field hs hf.toIsName rfl rfl (readFilterRound_sequence hf onlyFilters raw items us)

/-! ### Captured whole -/

theorem tokensWithin_phraseList (hne : vs ≠ []) (hvs : ∀ v ∈ vs, IsPhrase v) :
    Lexer.tokensWithin 63 (phraseList vs) = phraseTokens vs :=
  (Spells.of_lexes (Quoting.tight_phraseList hne)
    (Quoting.lexes_phraseList fun v hv => (hvs v hv).lacksMark)).tokensWithin_eq

/-- The token of a call that is captured whole. -/
def sequenceToken (vs : List Text) : Token :=
  .bracket "seq" ('(' :: (phraseList vs ++ [')'])) (phraseTokens vs)

theorem tight_sequenceCall (vs : List Text) : (sequenceCall vs).Tight := by
  have name : Text.Tight "seq" := .of_all (by decide) (by simp [Text.isBlank])
  have closing : Text.Tight [')'] := .singleton (by decide)
  simpa [sequenceCall] using name.around ('(' :: phraseList vs) closing

theorem spells_sequenceCall (hne : vs ≠ []) (hvs : ∀ v ∈ vs, IsPhrase v)
    (h : ∀ v ∈ vs, ¬EscapesMark v) : Spells 63 (sequenceCall vs) [sequenceToken vs] := by
  have captured : Lexer.Scan.Captured (phraseList vs) :=
    (Quoting.passed_phraseList (fun v hv => (hvs v hv).lacksMark) h).captured
  have read : Lexes 63 (sequenceCall vs) _ :=
    Lexes.capture (w := "seq") (o := '(') (d := ')') rfl rfl (by simp [Lexer.isPlain]) captured
  rw [tokensWithin_phraseList hne hvs] at read
  exact .of_lexes (tight_sequenceCall vs) read

theorem sequence_body (hs : s.escape = .all) (hf : IsFieldName f) (hne : vs ≠ [])
    (hvs : ∀ v ∈ vs, IsPhrase v) (h : ∀ v ∈ vs, ¬EscapesMark v) :
    FilterBody s f (sequenceFilter f vs) [sequenceToken vs] where
  enabled := rfl
  category := rfl
  spells := ⟨sequenceCall vs, spells_sequenceCall hne hvs h, write_sequence hs f hvs⟩
  inner := by simp [sequenceToken, Token.isInner, Token.hasText, Token.text?, Token.isConnective,
    Token.word?, Token.isComment]
  nonempty := by simp
  first := by simp [sequenceToken, Token.clings]
  name _ _ := rfl
  pipe _ := rfl
  read onlyFilters rest _ := by
    have listed : listedSequence s f (phraseTokens vs) = sequenceFilter f vs := by
      simp [listedSequence, Quoting.listedValues_phraseTokens hs, hne, sequenceFilter]
    rw [← listed]
    exact readFilterRound_sequence hf onlyFilters _ _ rest

/-! ### Captured in part or beyond the end -/

/-- Up to a closing character inside it, a list of phrases does not list the phrases. -/
theorem listedValues_ne_of_closer (hvs : ∀ v ∈ vs, IsPhrase v) {a b : Text} {c : Char}
    (split : phraseList vs = a ++ c :: b) (closer : isCloser c = true) :
    Reader.listedValues s (Lexer.tokensWithin 63 a) ≠ vs := by
  intro same
  have fewer := Lexer.closers_listedValues_le s 62 a
  rw [same, ← Quoting.closers_phraseList fun v hv => (hvs v hv).lacksMark, split] at fewer
  simp [Text.closers, closer] at fewer

/-- With the closing character of the call, a list of phrases lists one value more. -/
theorem listedValues_ne_of_cut_off (hs : s.escape = .all) (hne : vs ≠ [])
    (hvs : ∀ v ∈ vs, IsPhrase v) :
    Reader.listedValues s (Lexer.tokensWithin 63 (phraseList vs ++ [')'])) ≠ vs := by
  have closing : Spells 62 [')'] [.word [')']] :=
    .word (.singleton (by decide)) (by simp [Lexer.isPlain])
  have spells : Spells 62 (phraseList vs ++ [')']) (phraseTokens vs ++ [.word [')']]) :=
    .append_left (Quoting.lexes_phraseList fun v hv => (hvs v hv).lacksMark)
      (Quoting.tight_phraseList hne).first closing
  have listed : Reader.listedValues s (phraseTokens vs ++ [.word [')']]) = vs ++ [[')']] := by
    have phrases := Quoting.listedValues_phraseTokens hs vs
    rw [Reader.listedValues] at phrases ⊢
    rw [List.filter_append, List.map_append, phrases]
    rfl
  rw [spells.tokensWithin_eq, listed]
  simp

/-- If a phrase has its mark escaped, the bracket of a call does not list the phrases. -/
theorem exists_run_sequenceCall (hs : s.escape = .all) (hne : vs ≠ [])
    (hvs : ∀ v ∈ vs, IsPhrase v) (h : ¬∀ v ∈ vs, ¬EscapesMark v) :
    ∃ raw items us,
      (Lexer.Scan.start.run (sequenceCall vs)).map (Lexer.Lexeme.toToken (Lexer.tokensWithin 63)) =
        .bracket "seq" raw items :: us ∧ Reader.listedValues s items ≠ vs := by
  have lacks : ∀ v ∈ vs, LacksMark v := fun v hv => (hvs v hv).lacksMark
  have left : Within.outside.after (phraseList vs) ≠ .outside := by
    rwa [Ne, Quoting.after_phraseList_iff lacks]
  have plain : ∀ c ∈ ("seq" : Text), Lexer.isPlain c = true := by simp [Lexer.isPlain]
  rcases Lexer.Scan.run_call_cases plain (phraseList vs ++ [')']) with
    ⟨a, c, b, split, closer, outside, run⟩ | run
  · refine ⟨'(' :: (a ++ [c]), Lexer.tokensWithin 63 a,
      (Lexer.Scan.start.run b).map (Lexer.Lexeme.toToken (Lexer.tokensWithin 63)), ?_, ?_⟩
    · rw [sequenceCall, run]
      simp [Lexer.Lexeme.toToken, Lexer.Lexeme.interior]
    · rcases b.eq_nil_or_concat' with rfl | ⟨b, d, rfl⟩
      · obtain ⟨whole, -⟩ := List.append_inj' split rfl
        rw [whole] at left
        exact absurd outside left
      · have inside : phraseList vs = a ++ c :: b := by
          rw [← List.cons_append, ← List.append_assoc] at split
          exact (List.append_inj' split rfl).1
        exact listedValues_ne_of_closer hvs inside closer
  · refine ⟨'(' :: (phraseList vs ++ [')']), _, [], ?_, listedValues_ne_of_cut_off hs hne hvs⟩
    rw [sequenceCall, run]
    rfl

/-- A query of one sequence with an escaped mark starts with a sequence of other phrases. -/
theorem exists_head?_sequence (hf : IsFieldName f) (hne : vs ≠ []) (hvs : ∀ v ∈ vs, IsPhrase v)
    (h : ¬∀ v ∈ vs, ¬EscapesMark v) :
    ∃ items, (Query.readOperations (writeOperations [sequenceFilter f vs]) "_msg").head? =
      some (listedSequence {} f items) ∧ Reader.listedValues {} items ≠ vs := by
  obtain ⟨raw, items, us, run, listed⟩ := exists_run_sequenceCall (s := {}) rfl hne hvs h
  refine ⟨items, ?_, listed⟩
  have field : Lexes 63 (Scope.fieldMark {} f) (Scope.fieldTokens {} f) :=
    Scope.lexes_fieldMark rfl hf.toIsName
  have tight : (Scope.fieldMark {} f ++ sequenceCall vs).Tight :=
    (tight_sequenceCall vs).append_left (Scope.head?_fieldMark rfl hf.toIsName)
  have text : writeOperations [sequenceFilter f vs] = Scope.fieldMark {} f ++ sequenceCall vs := by
    have written : writeOperations [sequenceFilter f vs] =
        ((define {} .sequence).write (sequenceFilter f vs) []).trim :=
      writeOperations_filter rfl rfl
    rw [written, write_sequence rfl f hvs, tight.trim_eq]
  have tokens : tokenize (Scope.fieldMark {} f ++ sequenceCall vs) =
      Scope.fieldTokens {} f ++ [.bracket "seq" raw items] ++ us := by
    rw [tokenize, Lexer.maxNesting, Lexer.tokensWithin, Lexer.lexemes, tight.trim_eq,
      Lexer.Scan.run_append, field.closed, List.map_append, field.tokens, run]
    simp
  rw [text]
  refine Query.head?_operations_read tokens (by simp) ?_ ?_
    (by simp [listedSequence, OperationId.category])
  · intro t ht
    rcases List.mem_append.mp ht with ht | ht
    · exact Scope.isInner_fieldTokens hf.toIsName t ht
    · rw [List.mem_singleton.mp ht]
      rfl
  · intro us
    rw [List.append_assoc]
    exact readNext_sequence rfl hf false raw items us

theorem listedSequence_ne (hvs : ∀ v ∈ vs, IsPhrase v) {items : List Token}
    (h : Reader.listedValues s items ≠ vs) : listedSequence s f items ≠ sequenceFilter f vs := by
  intro same
  have params := congrArg Operation.params same
  simp only [listedSequence, sequenceFilter, List.cons.injEq, true_and] at params
  split at params
  · have empty : [] ∈ vs := by
      have : Param.text [] ∈ vs.map Param.text := by
        rw [← params]
        exact List.mem_singleton.mpr rfl
      simpa using this
    exact IsQuotable.nonempty_of_mustQuote (hvs [] empty).quoted rfl
  · exact h (List.map_injective_iff.mpr (fun _ _ => Param.text.inj) params)

end Sequence

/-- A sequence of phrases is read back as it was written exactly when no phrase is put between
backticks with a backslash in front of the closing one that is not paired off. -/
theorem readOperations_writeOperations_sequence_iff {f : Text} {vs : List Text}
    (hf : IsFieldName f) (hne : vs ≠ []) (hvs : ∀ v ∈ vs, IsPhrase v) :
    Query.readOperations (writeOperations [sequenceFilter f vs]) "_msg" = [sequenceFilter f vs] ↔
      ∀ v ∈ vs, ¬EscapesMark v := by
  constructor
  · intro same
    by_contra escaped
    obtain ⟨items, first, listed⟩ := exists_head?_sequence hf hne hvs escaped
    rw [same, List.head?_cons, Option.some.injEq] at first
    exact listedSequence_ne hvs listed first.symm
  · intro paired
    have form := (sequence_body (s := {}) rfl hf hne hvs paired).toForm rfl hf
    exact read_write_clauses (w := {}) rfl (.cons (.filter form) .nil)

/-- Closers, marks, and backslashes that are paired off, behind a field whose name is a keyword. -/
theorem readOperations_writeOperations_sequence_closers :
    let vs : List Text := ["a) b", "(`\\", "c\\\\", "]\"`"]
    (IsFieldName "sort" ∧ vs ≠ [] ∧ ∀ v ∈ vs, IsPhrase v) ∧
      Query.readOperations (writeOperations [sequenceFilter "sort" vs]) "_msg" =
        [sequenceFilter "sort" vs] := by
  intro vs
  have field : IsFieldName "sort" :=
    { (by decide : Text.IsName "sort") with unreserved := by decide }
  have phrases : ∀ v ∈ vs, IsPhrase v := by
    intro v hv
    simp only [vs, List.mem_cons, List.not_mem_nil, or_false] at hv
    rcases hv with rfl | rfl | rfl | rfl
    · exact ⟨by decide, .backtick, by decide⟩
    · exact ⟨by decide, .double, by decide⟩
    · exact ⟨by decide, .backtick, by decide⟩
    · exact ⟨by decide, .single, by decide⟩
  have paired : ∀ v ∈ vs, ¬EscapesMark v := by decide
  exact ⟨⟨field, by simp [vs], phrases⟩,
    (readOperations_writeOperations_sequence_iff field (by simp [vs]) phrases).mpr paired⟩

/-- A backslash at the end of a phrase takes the closing character of the call into the list. -/
theorem readOperations_sequence_backslash :
    (IsFieldName "foo" ∧ IsPhrase "a\\") ∧
      writeOperations [sequenceFilter "foo" ["a\\"]] = ("foo:seq(`a\\`)" : Text) ∧
      Query.readOperations (writeOperations [sequenceFilter "foo" ["a\\"]]) "_msg" =
        [sequenceFilter "foo" ["a\\", ")"]] ∧
      sequenceFilter "foo" ["a\\", ")"] ≠ sequenceFilter "foo" ["a\\"] := by
  have field : IsFieldName "foo" := { (by decide : Text.IsName "foo") with unreserved := by decide }
  have phrase : IsPhrase "a\\" := ⟨by decide, .backtick, by decide⟩
  exact ⟨⟨field, phrase⟩, by decide, by decide, by decide⟩

end LogQuery
