import LogQuery.Proofs.Query.Stages
import LogQuery.Query.Writer

/-!
# Writing forms in sequence

What a writer of all categories puts down for a list of forms spells their tokens: clauses are
joined by spaces and each pipe stands behind a bar. Together with reading this gives the round
trips that the individual operations are plugged into.
-/

namespace LogQuery

theorem define_id (s : Scope) (id : OperationId) : (define s id).id = id := by
  cases id <;> rfl

namespace Writer

open Lexer (Spells)

variable {w : Writer} {st : State} {op : Operation}

theorem dropSpaces_of_trimmed {t : Text} (h : t.Trimmed) : dropSpaces t = t := by
  apply Text.dropEndWhile_eq_self
  intro c hc
  have := h.last c hc
  rw [beq_eq_false_iff_ne]
  rintro rfl
  exact absurd this (by decide)

theorem joinSpace_nil (t : Text) : joinSpace [] t = t := rfl

theorem joinSpace_of_tight {left : Text} (h : left.Tight) (right : Text) :
    joinSpace left right = left ++ ' ' :: right := by
  have noNewline : left.endsWith "\n" = false := by
    rw [Bool.eq_false_iff]
    intro hn
    obtain ⟨front, hfront⟩ := List.isSuffixOf_iff_suffix.mp hn
    have last : left.getLast? = some '\n' := by
      rw [← hfront, List.getLast?_append]
      rfl
    exact absurd (h.last _ last) (by decide)
  rw [joinSpace, noNewline, dropSpaces_of_trimmed h.toTrimmed]
  simp [h.nonempty]

/-! ### One step -/

theorem definition?_eq (hw : w.categories = Category.all) (id : OperationId) :
    w.definition? id = some (define w.scope id) := by
  have known : w.knows id.category = true := by
    rw [knows, hw]
    cases id.category <;> rfl
  rw [definition?, if_pos known]

theorem step_enabled (hw : w.categories = Category.all) (enabled : op.disabled = false) :
    w.step st op = append st (define w.scope op.id) op := by
  have several : w.statsOnly = false := by
    rw [statsOnly, hw]
    rfl
  simp [step, enabled, definition?_eq hw, several]

/-- Filters and connectives are put behind a space as long as no pipe came before. -/
theorem append_filterLike {d : Definition} (hd : d.id.category = .filters ∨
    d.id.category = .operators) (hp : ∀ p ∈ st.previous, p.isFilterLike = true)
    (hs : st.previous = none → st.out = []) :
    append st d op = { out := joinSpace st.out (d.write op []), previous := some d } := by
  have notComment : (d.id == .comment) = false := by
    rw [beq_eq_false_iff_ne]
    rintro h
    rw [h] at hd
    simp [OperationId.category] at hd
  have like : d.isFilterLike = true := by
    rcases hd with h | h <;> simp [Definition.isFilterLike, h]
  obtain ⟨out, previous⟩ := st
  cases previous with
  | none =>
      have empty : out = [] := hs rfl
      subst empty
      simp [append, notComment, joinSpace, dropSpaces, Text.dropEndWhile]
  | some p =>
      have before : p.isFilterLike = true := hp p rfl
      simp [append, notComment, before, like]

/-- A pipe is written behind the text before it. -/
theorem append_pipe {d : Definition} (hd : d.id.category = .pipes) (ht : st.out.Trimmed) :
    append st d op = { out := d.write op st.out, previous := some d } := by
  have notComment : (d.id == .comment) = false := by
    rw [beq_eq_false_iff_ne]
    rintro h
    rw [h] at hd
    simp [OperationId.category] at hd
  have unlike : d.isFilterLike = false := by
    have notVariable : d.id ≠ .containsAnyFromVariable := by
      rintro h
      rw [h] at hd
      simp [OperationId.category] at hd
    have notOptions : d.id ≠ .options := by
      rintro h
      rw [h] at hd
      simp [OperationId.category] at hd
    simp [Definition.isFilterLike, hd, notVariable, notOptions]
  simp [append, notComment, hd, unlike, dropSpaces_of_trimmed ht]

/-! ### Clauses -/

/-- Only filters and connectives have been written, and the text so far spells these tokens. -/
structure Clausal (st : State) (ts : List Token) : Prop where
  text : st.out = [] ∧ ts = [] ∨ Spells 63 st.out ts
  previous : ∀ p ∈ st.previous, p.isFilterLike = true
  start : st.previous = none → st.out = []

theorem clausal_start : Clausal { out := [] } [] where
  text := .inl ⟨rfl, rfl⟩
  previous := by simp
  start _ := rfl

/-- A text is added behind a space, or is the first one. -/
theorem Clausal.joinSpace {ts us : List Token} {t : Text} (h : Clausal st ts)
    (ht : Spells 63 t us) : Spells 63 (Writer.joinSpace st.out t) (ts ++ us) := by
  rcases h.text with ⟨out, rfl⟩ | spells
  · rw [out, joinSpace_nil]
    exact ht
  · rw [joinSpace_of_tight spells.tight]
    exact spells.space ht

theorem spells_connective {s : Scope} {id : OperationId} (h : id.category = .operators) :
    Spells 63 ((define s id).write (.marker id) []) [.word (id.keyword.map Char.toUpper)] := by
  have written : (define s id).write (.marker id) [] = id.keyword.map Char.toUpper := by
    cases id <;> first | contradiction | rfl
  have name : Text.IsName (id.keyword.map Char.toUpper) := by
    cases id <;> first | contradiction | decide
  rw [written]
  exact .name name

theorem Clausal.step (hw : w.categories = Category.all) {ts us : List Token}
    (h : Clausal st ts) (clause : Clause w.scope op us) :
    Clausal (w.step st op) (ts ++ us) := by
  have enabled : op.disabled = false := by
    cases clause with
    | filter form => exact form.enabled
    | connective _ => rfl
  have category : op.id.category = .filters ∨ op.id.category = .operators := by
    cases clause with
    | filter form => exact .inl form.category
    | connective hid => exact .inr hid
  have spells : Spells 63 ((define w.scope op.id).write op []) us := by
    cases clause with
    | filter form => exact form.spells
    | connective hid => exact spells_connective hid
  have like : (define w.scope op.id).isFilterLike = true := by
    rcases category with c | c <;> simp [Definition.isFilterLike, define_id, c]
  rw [step_enabled hw enabled, append_filterLike (by simpa [define_id] using category)
    h.previous h.start]
  exact
    { text := .inr (h.joinSpace spells)
      previous := by simpa using like
      start := by simp }

theorem Clausal.foldl (hw : w.categories = Category.all) {ops : List Operation}
    {uss : List (List Token)} (clauses : List.Forall₂ (Clause w.scope) ops uss)
    {ts : List Token} (h : Clausal st ts) :
    Clausal (ops.foldl w.step st) (ts ++ uss.flatten) := by
  induction clauses generalizing st ts with
  | nil => simpa using h
  | cons clause rest ih => simpa using ih (h.step hw clause)

theorem spells_clauses (hw : w.categories = Category.all) {ops : List Operation}
    {uss : List (List Token)} (clauses : List.Forall₂ (Clause w.scope) ops uss) (hne : ops ≠ []) :
    Spells 63 (ops.foldl w.step { out := [] }).out uss.flatten := by
  rcases (clausal_start.foldl hw clauses).text with ⟨-, none⟩ | spells
  · exact absurd none (Query.flatten_ne_nil clauses hne)
  · exact spells

/-! ### Pipes -/

/-- A pipe is written behind a bar, whatever its text is read back as. -/
theorem spells_step_bar (hw : w.categories = Category.all) {expr : Text} {ts us : List Token}
    (h : Spells 63 st.out ts) (enabled : op.disabled = false) (category : op.id.category = .pipes)
    (spells : Spells 63 expr us)
    (written : (define w.scope op.id).write op st.out = st.out ++ ' ' :: '|' :: ' ' :: expr) :
    Spells 63 (w.step st op).out (ts ++ .word ['|'] :: us) := by
  rw [step_enabled hw enabled, append_pipe (by simpa [define_id] using category) h.tight.toTrimmed]
  dsimp only
  rw [written]
  exact h.spaced (c := '|') (by simp) spells

theorem spells_step_pipe (hw : w.categories = Category.all) {back : Operation}
    {ts us : List Token} (h : Spells 63 st.out ts) (form : PipeForm w.scope op back us) :
    Spells 63 (w.step st op).out (ts ++ .word ['|'] :: us) := by
  obtain ⟨expr, spells, written⟩ := form.spells st.out h.tight.nonempty
  exact spells_step_bar hw h form.enabled form.category spells written

theorem spells_foldl_pipes (hw : w.categories = Category.all) {ps : List Operation}
    {bs : List (Operation × List Token)}
    (pipes : List.Forall₂ (Query.PipePair w.scope) ps bs) {ts : List Token}
    (h : Spells 63 st.out ts) :
    Spells 63 (ps.foldl w.step st).out
      (ts ++ (bs.map Prod.snd).flatMap (.word ['|'] :: ·)) := by
  induction pipes generalizing st ts with
  | nil => simpa using h
  | cons form rest ih => simpa using ih (spells_step_pipe hw h form)

end Writer

/-! ### Round trips -/

open Lexer (Spells)

variable {w : Writer} {ops ps : List Operation} {uss : List (List Token)}

theorem tokenize_of_spells {t : Text} {ts : List Token} (h : Spells 63 t ts) : tokenize t = ts :=
  h.tokensWithin_eq

/-- A single filter is written as its definition says. -/
theorem writeOperations_filter {op : Operation} (enabled : op.disabled = false)
    (category : op.id.category = .filters) :
    LogQuery.writeOperations [op] = ((define {} op.id).write op []).trim := by
  have step : ({} : Writer).step { out := [] } op =
      Writer.append { out := [] } (define {} op.id) op :=
    Writer.step_enabled rfl enabled
  change (({} : Writer).step { out := [] } op).out.trim = _
  rw [step, Writer.append_filterLike (.inl (by rw [define_id, category])) (by simp) (by simp),
    Writer.joinSpace_nil]

/-- A list of filters and connectives is read back as it was written. -/
theorem read_write_clauses (hw : w.categories = Category.all)
    (clauses : List.Forall₂ (Clause w.scope) ops uss) :
    (Query.read { scope := w.scope } (w.writeOperations ops)).operations = ops := by
  rcases eq_or_ne ops [] with rfl | hne
  · rfl
  · have spells := Writer.spells_clauses hw clauses hne
    have reads := Query.readRuns_clauses .nil clauses false
    rw [List.flatten_nil, List.nil_append, List.nil_append] at reads
    have stages : Segment.stages uss.flatten = [uss.flatten] :=
      Segment.splitAt_of_none (Query.flatten_ne_nil clauses hne) (Query.bars_clauses clauses)
    rw [Writer.writeOperations, Writer.writeAfter, spells.tight.trim_eq, Query.read,
      tokenize_of_spells spells, stages]
    simp [reads, Query.readRuns]

/-- The operations before the first pipe: what they are written as, and that reading it ends
with them and not behind a connective. -/
structure Opening (w : Writer) (ops : List Operation) (ts : List Token) : Prop where
  spells : Spells 63 (ops.foldl w.step { out := [] }).out ts
  bars : ∀ t ∈ ts, t.hasText "|" = false
  nonempty : ts ≠ []
  reads : Query.readRuns w.scope false (Segment.runs ts) = (ops, false)

/-- Pipes behind an opening are read back as the operations that their forms give. -/
theorem Opening.read_write_pipes (hw : w.categories = Category.all) {ts : List Token}
    {bs : List (Operation × List Token)} (h : Opening w ops ts)
    (pipes : List.Forall₂ (Query.PipePair w.scope) ps bs) :
    (Query.read { scope := w.scope } (w.writeOperations (ops ++ ps))).operations =
      ops ++ bs.map Prod.fst := by
  have spells := Writer.spells_foldl_pipes hw pipes h.spells
  rw [← List.foldl_append] at spells
  rw [Writer.writeOperations, Writer.writeAfter, spells.tight.trim_eq]
  exact Query.operations_of_tokens h.nonempty h.bars h.reads pipes (tokenize_of_spells spells)

end LogQuery
