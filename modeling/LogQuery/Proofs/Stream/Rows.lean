import LogQuery.Proofs.Filter.Field
import LogQuery.Proofs.Query.Written
import LogQuery.Proofs.Stream.Selector

/-!
# Stream filter rows in a query

The complete rows are written as stream filters with `AND` between them. Each filter is a run of its
own, in which braces behind a reserved field hold one selector, so the rows come back in order
whatever their values hold.
-/

namespace LogQuery

open Lexer (Lexes Spells)

/-! ### Operations with `AND` between -/

section Joined

variable {s : Scope} {ops : List Operation} {tss : List (List Token)} {texts : List Text}

/-- Tokens that make up a run of their own, read as one operation wherever it stands. -/
structure StandsAlone (s : Scope) (op : Operation) (ts : List Token) : Prop where
  nonempty : ts ≠ []
  inner : ∀ t ∈ ts, t.isInner = true
  read : ∀ onlyFilters, Query.readSegment s onlyFilters ts = [op]

/-- The tokens of operations with `AND` between. -/
def andTokens (tss : List (List Token)) : List Token := (tss.intersperse [.word "AND"]).flatten

theorem andTokens_cons_cons (ts us : List Token) :
    andTokens (ts :: us :: tss) = ts ++ .word "AND" :: andTokens (us :: tss) := by
  simp [andTokens]

theorem andTokens_ne_nil (h : List.Forall₂ (StandsAlone s) ops tss) (hne : ops ≠ []) :
    andTokens tss ≠ [] := by
  cases h with
  | nil => contradiction
  | cons first rest =>
      cases rest with
      | nil => simpa [andTokens] using first.nonempty
      | cons second rest => simp [andTokens_cons_cons]

theorem bars_andTokens (h : List.Forall₂ (StandsAlone s) ops tss) :
    ∀ t ∈ andTokens tss, t.hasText "|" = false := by
  induction h with
  | nil => simp [andTokens]
  | @cons op ts ops tss first rest ih =>
      have bars : ∀ t ∈ ts, t.hasText "|" = false :=
        fun t ht => Query.hasText_bar_of_isInner (first.inner t ht)
      cases rest with
      | nil => simpa [andTokens] using bars
      | @cons op' us ops tss second rest =>
          intro t ht
          rw [andTokens_cons_cons, List.mem_append, List.mem_cons] at ht
          rcases ht with ht | rfl | ht
          · exact bars t ht
          · rfl
          · exact ih t ht

/-- Each operation is a run, and so is each connective. -/
theorem readRuns_andTokens (h : List.Forall₂ (StandsAlone s) ops tss) (hne : ops ≠ []) (b : Bool) :
    Query.readRuns s b (Segment.runs (andTokens tss)) =
      (ops.intersperse (.marker .and), false) := by
  induction h generalizing b with
  | nil => contradiction
  | @cons op ts ops tss first rest ih =>
      have free : ∀ t ∈ ts, t.isConnective = false :=
        fun t ht => Query.isConnective_of_isInner (first.inner t ht)
      have run (b : Bool) : Query.readRun s b ts = ([op], false) := by
        rw [Query.readRun_inner first.nonempty first.inner, first.read]
      cases rest with
      | nil =>
          have one : andTokens [ts] = ts := by simp [andTokens]
          rw [one, Segment.runs_of_none first.nonempty free, Query.readRuns, run]
          rfl
      | @cons op' us ops tss second rest =>
          have more := ih (by simp) true
          have category : OperationId.and.category = .operators := rfl
          have connective (b : Bool) : Query.readRun s b [.word "AND"] = ([.marker .and], true) :=
            Query.readRun_connective category b
          rw [andTokens_cons_cons, Segment.runs_append free rfl, Query.readRuns, run,
            Query.readRuns, connective, more]
          rfl

theorem spells_andTokens (h : List.Forall₂ (Spells 63) texts tss) (hne : texts ≠ []) :
    Spells 63 (Text.join " AND " texts) (andTokens tss) := by
  induction h with
  | nil => contradiction
  | @cons t ts texts tss first rest ih =>
      cases rest with
      | nil => simpa [andTokens, Text.join] using first
      | @cons u us texts tss second rest =>
          have connective : Spells 63 "AND" [.word "AND"] := .name (by decide)
          have whole := first.space (connective.space (ih (by simp)))
          rw [andTokens_cons_cons]
          simpa [Text.join] using whole

/-- Operations joined by `AND` are read back in order, with a marker for each connective. -/
theorem readOperations_andTokens (h : List.Forall₂ (StandsAlone { defaultField := "_msg" }) ops tss)
    (spells : List.Forall₂ (Spells 63) texts tss) :
    Query.readOperations (Text.join " AND " texts) "_msg" = ops.intersperse (.marker .and) := by
  rcases eq_or_ne ops [] with rfl | hne
  · cases h
    cases spells
    rfl
  · have written : texts ≠ [] := by
      rintro rfl
      cases spells
      cases h
      contradiction
    have read := Query.operations_of_tokens (andTokens_ne_nil h hne) (bars_andTokens h)
      (readRuns_andTokens h hne false) .nil
      (by simpa using tokenize_of_spells (spells_andTokens spells written))
    rw [List.map_nil, List.append_nil] at read
    exact read

end Joined

/-! ### The filter of a row -/

/-- The stream filter of one selector. -/
def streamFilter (selector : Text) : Operation := { id := .stream, params := [.text selector] }

namespace StreamRow

variable {r : StreamRow} {rows : List StreamRow}

/-- The token of the braces around the selector of a row. -/
def braces (r : StreamRow) : Token :=
  .bracket [] ('\x7b' :: (r.selectorText ++ ['\x7d'])) (Lexer.tokensWithin 63 r.selectorText)

/-- The tokens of a complete row. -/
def tokens (r : StreamRow) : List Token := [.field "_stream", r.braces]

theorem isIncomplete_eq (r : StreamRow) :
    (r.label.isEmpty || r.values.isEmpty) = !r.isComplete := by
  simp [isComplete]

theorem text_eq (h : r.IsPlain) (complete : r.isComplete = true) :
    r.text = "_stream:" ++ '\x7b' :: (r.selectorText ++ ['\x7d']) := by
  have values : r.values.map valueText = r.values.map Quoting.inDoubleQuotes := by
    refine List.map_congr_left fun v hv => ?_
    rw [valueText, h.values v hv]
    rfl
  rw [text, isIncomplete_eq, complete, values, selectorText, word, valueList]
  cases r.operator <;> simp

theorem isEmpty_text (r : StreamRow) : r.text.isEmpty = !r.isComplete := by
  rw [text, isIncomplete_eq]
  cases r.isComplete <;> simp

theorem spells_text (h : r.IsPlain) (complete : r.isComplete = true) :
    Spells 63 r.text r.tokens := by
  have field : Lexes 63 "_stream:" [.field "_stream"] :=
    Lexes.field (w := "_stream") (by simp [Lexer.isPlain])
  have braces : Lexes 63 ('\x7b' :: (r.selectorText ++ ['\x7d'])) _ :=
    Lexes.capture (w := []) (o := '\x7b') (d := '\x7d') rfl rfl (by simp)
      (passed_selectorText h complete).captured
  have opening : Text.Tight "_stream:" := .of_all (by decide) (by simp [Text.isBlank])
  have closing : Text.Tight ['\x7d'] := .singleton (by decide)
  rw [text_eq h complete]
  refine .of_lexes ?_ (field.append braces)
  simpa using opening.around ('\x7b' :: r.selectorText) closing

/-- The braces give the selector that they hold. -/
theorem run_read_braces (h : r.IsPlain) (complete : r.isComplete = true) (ts : List Token) :
    Filter.Stream.read.run (r.braces :: ts) = ([.text r.selectorText], ts) := by
  have nonempty : r.selectorText ≠ [] := (tight_selectorText h complete).nonempty
  have inner : Bracket.inner ⟨[], '\x7b' :: (r.selectorText ++ ['\x7d']),
      Lexer.tokensWithin 63 r.selectorText⟩ = r.selectorText := by
    simp [Bracket.inner]
  simp [Filter.Stream.read, braces, Token.bracket?, inner, selectors_selectorText h complete,
    nonempty]

theorem standsAlone_tokens {s : Scope} (h : r.IsPlain) (complete : r.isComplete = true) :
    StandsAlone s (streamFilter r.selectorText) r.tokens where
  nonempty := by simp [tokens]
  inner := by
    simp [tokens, braces, Token.isInner, Token.hasText, Token.text?, Token.isConnective, Token.word?,
      Token.isComment]
  read onlyFilters := by
    let field : Text := "_stream"
    have read : (readOperation s .stream (some field)).run [r.braces] =
        (streamFilter r.selectorText, []) := by
      change (({ id := .stream, params := (Filter.Stream.read.run [r.braces]).1 } : Operation),
        (Filter.Stream.read.run [r.braces]).2) = _
      rw [run_read_braces h complete]
      rfl
    have round : (Query.readFilterRound s onlyFilters (some field) []).run [r.braces] =
        (.done [((readOperation s .stream (some field)).run [r.braces]).1],
          ((readOperation s .stream (some field)).run [r.braces]).2) :=
      Query.readFilterRound_reserved .stream rfl
    rw [read] at round
    have next : (Query.readNext s onlyFilters).run r.tokens =
        ([streamFilter r.selectorText], []) := by
      have named : (Reader.takeFieldName s).run r.tokens = (some field, [r.braces]) := rfl
      rw [Query.readNext, Reader.run_bind, named]
      exact Query.readFilter_run round
    exact Query.readSegment_run (by simp [tokens]) next (by simp [streamFilter, OperationId.category])

/-! ### All rows -/

theorem filterText_eq (rows : List StreamRow) :
    filterText rows = Text.join " AND " ((rows.filter isComplete).map text) := by
  have kept : (fun t : Text => !t.isEmpty) ∘ text = isComplete := by
    funext r
    simp [isEmpty_text]
  rw [filterText, List.filter_map, kept]

/-- The complete rows of any list come back as stream filters of one selector each, in order and
with `AND` between, and each selector is read as what its row asks for. -/
theorem readOperations_filterText (rows : List StreamRow) (h : ∀ r ∈ rows, r.IsPlain) :
    let complete := rows.filter isComplete
    Query.readOperations (filterText rows) "_msg" =
        (complete.map fun r => streamFilter r.selectorText).intersperse (.marker .and) ∧
      complete.map (fun r => StreamSelector.ofText r.selectorText) = complete.map selector := by
  intro complete
  have plain : ∀ r ∈ complete, r.IsPlain ∧ r.isComplete = true := by
    intro r hr
    obtain ⟨hr, whole⟩ := List.mem_filter.mp hr
    exact ⟨h r hr, whole⟩
  have spells : List.Forall₂ (Spells 63) (complete.map text) (complete.map tokens) := by
    rw [List.forall₂_map_left_iff, List.forall₂_map_right_iff, List.forall₂_same]
    exact fun r hr => spells_text (plain r hr).1 (plain r hr).2
  have filters : List.Forall₂ (StandsAlone { defaultField := "_msg" })
      (complete.map fun r => streamFilter r.selectorText) (complete.map tokens) := by
    rw [List.forall₂_map_left_iff, List.forall₂_map_right_iff, List.forall₂_same]
    exact fun r hr => standsAlone_tokens (plain r hr).1 (plain r hr).2
  refine ⟨?_, List.map_congr_left fun r hr => ofText_selectorText (plain r hr).1 (plain r hr).2⟩
  rw [filterText_eq]
  exact readOperations_andTokens filters spells

/-- Values that hold marks, escapes, commas, brackets and a line feed, an empty value, a label that
is a word of selectors, and rows without label or values between the others. -/
theorem readOperations_filterText_marks :
    let rows : List StreamRow :=
      [{ label := "app", values := ["a\"b", "c\\", "d, e", "(]\x7d", []] },
        { label := [], values := ["f"] },
        { label := "in", operator := .notEqual, values := ["\x60'\n#"] },
        { label := "env" },
        { label := "k8s.pod_1", operator := .notEqual, values := ["\\\"", "AND"] }]
    (∀ r ∈ rows, r.IsPlain) ∧
      let complete := rows.filter isComplete
      Query.readOperations (filterText rows) "_msg" =
          (complete.map fun r => streamFilter r.selectorText).intersperse (.marker .and) ∧
        complete.map (fun r => StreamSelector.ofText r.selectorText) = complete.map selector := by
  intro rows
  have plain : ∀ r ∈ rows, r.IsPlain := by
    intro r hr
    simp only [rows, List.mem_cons, List.not_mem_nil, or_false] at hr
    rcases hr with rfl | rfl | rfl | rfl | rfl
    · exact ⟨.inr (by decide), by decide⟩
    · exact ⟨.inl rfl, by decide⟩
    · exact ⟨.inr (by decide), by decide⟩
    · exact ⟨.inr (by decide), by decide⟩
    · exact ⟨.inr (by decide), by decide⟩
  exact ⟨plain, readOperations_filterText rows plain⟩

end StreamRow

end LogQuery
