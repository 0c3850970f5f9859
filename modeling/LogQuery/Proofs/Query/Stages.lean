import LogQuery.Proofs.Query.Form

/-!
# Reading forms in sequence

A segment made of filter forms gives back the filters, a clause list with its connectives is
cut into such segments, and pipe forms behind bars are stages of their own. Only the last
operation decides whether reading goes on right after a connective.
-/

namespace LogQuery.Query

open Reader (Iterates)

variable {s : Scope} {ops fs : List Operation} {tss uss : List (List Token)}

/-! ### One segment -/

theorem readSegmentRound_nil (onlyFilters : Bool) (acc : List Operation) :
    (readSegmentRound s onlyFilters acc).run [] = (.done acc, []) := rfl

/-- A round that reads an operation, not a stats function, takes exactly its tokens. -/
theorem readSegmentRound_run {onlyFilters : Bool} {acc : List Operation} {op : Operation}
    {ts rest : List Token} (hne : ts ≠ [])
    (read : (readNext s onlyFilters).run (ts ++ rest) = ([op], rest))
    (hop : op.id.category ≠ .stats) :
    (readSegmentRound s onlyFilters acc).run (ts ++ rest) = (.more (acc ++ [op]), rest) := by
  simp [readSegmentRound, read, hne, hop]

theorem first_flatten (h : List.Forall₂ (FilterForm s) fs tss) :
    ∀ t ∈ tss.flatten.head?, t.clings = false := by
  cases h with
  | nil => simp
  | cons form rest =>
      rw [List.flatten_cons, List.head?_append_of_ne_nil _ form.nonempty]
      exact form.first

theorem iterates_filters (h : List.Forall₂ (FilterForm s) fs tss) (onlyFilters : Bool)
    (acc : List Operation) :
    Iterates (readSegmentRound s onlyFilters) acc tss.flatten (acc ++ fs) [] := by
  induction h generalizing acc with
  | nil => simpa using Iterates.done (readSegmentRound_nil onlyFilters acc)
  | @cons op ts fs tss form rest ih =>
      have read := form.read onlyFilters tss.flatten (first_flatten rest)
      have notStats : op.id.category ≠ .stats := by
        rw [form.category]
        decide
      rw [List.flatten_cons]
      apply Iterates.more (readSegmentRound_run form.nonempty read notStats)
      · rw [List.length_append]
        have := List.length_pos_iff.mpr form.nonempty
        omega
      · simpa using ih (acc ++ [op])

theorem readSegment_filters (h : List.Forall₂ (FilterForm s) fs tss) (onlyFilters : Bool) :
    readSegment s onlyFilters tss.flatten = fs := by
  rw [readSegment, (iterates_filters h onlyFilters []).run_loop]
  rfl

/-- A segment that is one operation, not a stats function. -/
theorem readSegment_run {onlyFilters : Bool} {op : Operation} {ts : List Token} (hne : ts ≠ [])
    (read : (readNext s onlyFilters).run ts = ([op], [])) (hop : op.id.category ≠ .stats) :
    readSegment s onlyFilters ts = [op] := by
  have round : (readSegmentRound s onlyFilters []).run (ts ++ []) = (.more [op], []) :=
    readSegmentRound_run hne (by simpa using read) hop
  have iterates : Iterates (readSegmentRound s onlyFilters) [] ts [op] [] := by
    rw [List.append_nil] at round
    refine .more round ?_ (.done (readSegmentRound_nil onlyFilters _))
    exact List.length_pos_iff.mpr hne
  rw [readSegment, iterates.run_loop]

theorem readSegment_pipe {op back : Operation} {ts : List Token} (form : PipeForm s op back ts) :
    readSegment s false ts = [back] := by
  refine readSegment_run form.nonempty form.read ?_
  rw [form.backCategory]
  decide

/-! ### Runs of a stage -/

/-- A run of inner tokens is read as a segment. -/
theorem readRun_inner {ts : List Token} (hne : ts ≠ []) (h : ∀ t ∈ ts, t.isInner = true)
    (b : Bool) : readRun s b ts = (readSegment s b ts, false) := by
  cases ts with
  | nil => contradiction
  | cons t ts =>
      have noConnective : t.isConnective = false := by
        have := h t (by simp)
        simp only [Token.isInner, Bool.and_eq_true, Bool.not_eq_true'] at this
        exact this.1.2
      have noComment : ∀ u ∈ t :: ts, u.isComment = false := by
        intro u hu
        have := h u hu
        simp only [Token.isInner, Bool.and_eq_true, Bool.not_eq_true'] at this
        exact this.2
      have comments : (t :: ts).filterMap Token.comment? = [] := by
        rw [List.filterMap_eq_nil_iff]
        intro u hu
        cases u with
        | comment v => exact absurd (noComment _ hu) (by simp [Token.isComment])
        | _ => rfl
      have kept : ((t :: ts).filter fun u => !u.isComment) = t :: ts := by
        rw [List.filter_eq_self]
        intro u hu
        rw [noComment u hu]
        rfl
      rw [readRun, connective?_eq_none noConnective]
      simp only [kept, comments, List.map_nil, List.append_nil]

theorem readRun_connective {id : OperationId} (h : id.category = .operators) (b : Bool) :
    readRun s b [.word (id.keyword.map Char.toUpper)] = ([.marker id], true) := by
  cases id <;> first | contradiction | rfl

theorem isConnective_connective {id : OperationId} (h : id.category = .operators) :
    (Token.word (id.keyword.map Char.toUpper)).isConnective = true := by
  cases id <;> first | contradiction | rfl

/-- Whether the last operation is a connective; `b` when there is none. -/
def endsInConnective (b : Bool) (ops : List Operation) : Bool :=
  (ops.getLast?.map fun op => op.id.category == .operators).getD b

theorem isInner_flatten (h : List.Forall₂ (FilterForm s) fs tss) :
    ∀ t ∈ tss.flatten, t.isInner = true := by
  induction h with
  | nil => simp
  | cons form rest ih =>
      intro t ht
      rw [List.flatten_cons, List.mem_append] at ht
      rcases ht with ht | ht
      · exact form.inner t ht
      · exact ih t ht

theorem isConnective_of_isInner {t : Token} (h : t.isInner = true) : t.isConnective = false := by
  simp only [Token.isInner, Bool.and_eq_true, Bool.not_eq_true'] at h
  exact h.1.2

theorem hasText_bar_of_isInner {t : Token} (h : t.isInner = true) : t.hasText "|" = false := by
  simp only [Token.isInner, Bool.and_eq_true, Bool.not_eq_true'] at h
  exact h.1.1

theorem endsInConnective_append (b : Bool) (ops rest : List Operation) :
    endsInConnective b (ops ++ rest) = endsInConnective (endsInConnective b ops) rest := by
  unfold endsInConnective
  rw [List.getLast?_append]
  cases rest.getLast? with
  | none => rfl
  | some op => rfl

theorem endsInConnective_cons (b : Bool) (op : Operation) (rest : List Operation) :
    endsInConnective b (op :: rest) = endsInConnective (op.id.category == .operators) rest :=
  endsInConnective_append b [op] rest

theorem endsInConnective_filters (h : List.Forall₂ (FilterForm s) fs tss) (hne : fs ≠ [])
    (b : Bool) : endsInConnective b fs = false := by
  obtain ⟨ops, op, rfl⟩ := List.eq_nil_or_concat' fs |>.resolve_left hne
  have category : op.id.category = .filters := by
    obtain ⟨ts, form⟩ := exists_of_forall₂ h (a := op) (by simp)
    exact form.category
  simp [endsInConnective, category]

/-- A run of filters, which may be empty, gives back the filters. -/
theorem readRun_filters (h : List.Forall₂ (FilterForm s) fs tss) (b : Bool) :
    readRun s b tss.flatten = (fs, endsInConnective b fs) := by
  cases h with
  | nil => rfl
  | @cons op ts fs tss form rest =>
      have all : List.Forall₂ (FilterForm s) (op :: fs) (ts :: tss) := .cons form rest
      have hne : (ts :: tss).flatten ≠ [] := by simp [form.nonempty]
      rw [readRun_inner hne (isInner_flatten all), readSegment_filters all,
        endsInConnective_filters all (by simp)]

/-- Clauses after the filters of an unfinished run. The induction is on the clauses; a filter
joins the run and a connective ends it. -/
theorem readRuns_clauses (hfs : List.Forall₂ (FilterForm s) fs tss)
    (h : List.Forall₂ (Clause s) ops uss) (b : Bool) :
    readRuns s b (Segment.runs (tss.flatten ++ uss.flatten)) =
      (fs ++ ops, endsInConnective b (fs ++ ops)) := by
  induction h generalizing fs tss b with
  | nil =>
      have free : ∀ t ∈ tss.flatten, t.isConnective = false :=
        fun t ht => isConnective_of_isInner (isInner_flatten hfs t ht)
      rw [List.flatten_nil, List.append_nil, List.append_nil]
      by_cases hne : tss.flatten = []
      · have none := readRun_filters hfs b
        rw [hne] at none ⊢
        exact none
      · rw [Segment.runs_of_none hne free, readRuns, readRun_filters hfs, readRuns]
        simp
  | @cons op ts ops uss clause rest ih =>
      cases clause with
      | filter form =>
          have joined := List.rel_append hfs (.cons form .nil)
          have read := ih joined b
          simpa using read
      | @connective id hid =>
          have free : ∀ t ∈ tss.flatten, t.isConnective = false :=
            fun t ht => isConnective_of_isInner (isInner_flatten hfs t ht)
          have read := ih .nil true
          simp only [List.flatten_nil, List.nil_append] at read
          rw [List.flatten_cons, List.singleton_append,
            Segment.runs_append free (isConnective_connective hid), readRuns,
            readRun_filters hfs, readRuns, readRun_connective hid, read]
          refine Prod.ext (by simp) ?_
          simp [endsInConnective_append, endsInConnective_cons, hid, Operation.marker]

theorem flatten_ne_nil (h : List.Forall₂ (Clause s) ops uss) (hne : ops ≠ []) :
    uss.flatten ≠ [] := by
  cases h with
  | nil => contradiction
  | cons clause rest =>
      cases clause with
      | filter form => simp [form.nonempty]
      | connective _ => simp

theorem bars_clauses (h : List.Forall₂ (Clause s) ops uss) :
    ∀ t ∈ uss.flatten, t.hasText "|" = false := by
  induction h with
  | nil => simp
  | cons clause rest ih =>
      intro t ht
      rw [List.flatten_cons, List.mem_append] at ht
      rcases ht with ht | ht
      · cases clause with
        | filter form => exact hasText_bar_of_isInner (form.inner t ht)
        | @connective id _ =>
            rw [List.mem_singleton] at ht
            subst ht
            cases id <;> rfl
      · exact ih t ht

/-! ### Whole queries -/

/-- A pipe with the operation read back and its tokens. -/
abbrev PipePair (s : Scope) (op : Operation) (read : Operation × List Token) : Prop :=
  PipeForm s op read.1 read.2

variable {ps : List Operation} {bs : List (Operation × List Token)}

theorem readRuns_pipes (h : List.Forall₂ (PipePair s) ps bs) :
    readRuns s false (bs.map Prod.snd) = (bs.map Prod.fst, false) := by
  induction h with
  | nil => rfl
  | cons form rest ih =>
      rw [List.map_cons, readRuns, readRun_inner form.nonempty form.inner, readSegment_pipe form,
        ih]
      rfl

theorem flatMap_runs_pipes (h : List.Forall₂ (PipePair s) ps bs) :
    (bs.map Prod.snd).flatMap Segment.runs = bs.map Prod.snd := by
  induction h with
  | nil => rfl
  | cons form rest ih =>
      rw [List.map_cons, List.flatMap_cons, ih, Segment.runs_of_none form.nonempty
        fun t ht => isConnective_of_isInner (form.inner t ht)]
      rfl

/-- The stages of a query are its first tokens and the tokens of its pipes. -/
theorem stages_pipes {us : List Token} (hne : us ≠ [])
    (bars : ∀ t ∈ us, t.hasText "|" = false) (h : List.Forall₂ (PipePair s) ps bs) :
    Segment.stages (us ++ (bs.map Prod.snd).flatMap (.word ['|'] :: ·)) =
      us :: bs.map Prod.snd := by
  have parts : ∀ p ∈ bs.map Prod.snd, p ≠ [] ∧ ∀ t ∈ p, t.hasText "|" = false := by
    intro p hp
    obtain ⟨b, hb, rfl⟩ := List.mem_map.mp hp
    obtain ⟨op, form⟩ := exists_of_forall₂ h.flip hb
    exact ⟨form.nonempty, fun t ht => hasText_bar_of_isInner (form.inner t ht)⟩
  exact Segment.splitAt_flatMap hne bars rfl parts

/-- Tokens that are read up to their end, and pipes behind them. Labels are lifted from the
operations before the pipes alone. -/
theorem read_of_tokens (o : Options) {expr : Text} {us : List Token} (hne : us ≠ [])
    (bars : ∀ t ∈ us, t.hasText "|" = false)
    (reads : readRuns o.scope false (Segment.runs us) = (ops, false))
    (h : List.Forall₂ (PipePair o.scope) ps bs)
    (tokens : tokenize expr = us ++ (bs.map Prod.snd).flatMap (.word ['|'] :: ·)) :
    read o expr =
      { labels := (if o.labels then liftLabels ops else ([], ops)).1
        operations := (if o.labels then liftLabels ops else ([], ops)).2 ++ bs.map Prod.fst
        expr } := by
  rw [read, tokens, stages_pipes hne bars h]
  simp only [reads, flatMap_runs_pipes h, readRuns_pipes h]

theorem operations_of_tokens {expr : Text} {us : List Token} (hne : us ≠ [])
    (bars : ∀ t ∈ us, t.hasText "|" = false)
    (reads : readRuns s false (Segment.runs us) = (ops, false))
    (h : List.Forall₂ (PipePair s) ps bs)
    (tokens : tokenize expr = us ++ (bs.map Prod.snd).flatMap (.word ['|'] :: ·)) :
    (read { scope := s } expr).operations = ops ++ bs.map Prod.fst := by
  rw [read_of_tokens { scope := s } hne bars reads h tokens]
  rfl

/-- A query without pipes and connectives is one segment. -/
theorem operations_segment {expr : Text} {ts : List Token} (hne : ts ≠ [])
    (inner : ∀ t ∈ ts, t.isInner = true) (tokens : tokenize expr = ts) :
    (read { scope := s } expr).operations = readSegment s false ts := by
  have stages : Segment.stages ts = [ts] :=
    Segment.splitAt_of_none hne fun t ht => hasText_bar_of_isInner (inner t ht)
  have runs : Segment.runs ts = [ts] :=
    Segment.runs_of_none hne fun t ht => isConnective_of_isInner (inner t ht)
  rw [read, tokens, stages]
  simp [runs, readRuns, readRun_inner hne inner]

end LogQuery.Query
