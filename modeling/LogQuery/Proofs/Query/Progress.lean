import LogQuery.Proofs.Query.Stages
import LogQuery.Proofs.Token.Outcome

/-!
# Reading makes progress

A reader leaves a suffix of what it was given, so the position behind it is counted by the tokens
it takes and never passes the end. A loop comes to its end by itself if every round that goes on
takes a token. In a filter such a round takes a negation sign; in a segment it takes the next
operation, or the word filter that stands in for an operation without tokens. Nothing is read
only where nothing is left, so the rounds of a segment go on until all its tokens are taken.
-/

namespace LogQuery

namespace Reader

variable {α β σ : Type} {r : Reader α} {f : α → Reader β} {ts : List Token} {start : Nat}

theorem length_run_le (r : Reader α) (ts : List Token) : (r.run ts).2.length ≤ ts.length :=
  (r.suffix ts).length_le

/-! ### Positions -/

theorem used_le (r : Reader α) (ts : List Token) : r.used ts ≤ ts.length := Nat.sub_le _ _

/-- What a reader leaves stands behind the tokens that it used. -/
theorem run_eq_drop (r : Reader α) (ts : List Token) : (r.run ts).2 = ts.drop (r.used ts) :=
  List.suffix_iff_eq_drop.mp (r.suffix ts)

/-- The position in a token list where a reader stops that starts at the given one. -/
def stop (r : Reader α) (ts : List Token) (start : Nat) : Nat := start + r.used (ts.drop start)

theorem le_stop (r : Reader α) (ts : List Token) (start : Nat) : start ≤ r.stop ts start :=
  Nat.le_add_right _ _

theorem stop_le (r : Reader α) (h : start ≤ ts.length) : r.stop ts start ≤ ts.length := by
  have used := r.used_le (ts.drop start)
  rw [List.length_drop] at used
  rw [stop]
  omega

theorem run_drop (r : Reader α) (ts : List Token) (start : Nat) :
    (r.run (ts.drop start)).2 = ts.drop (r.stop ts start) := by
  rw [run_eq_drop, List.drop_drop, stop]

/-- A reader that leaves nothing stops at the end. -/
theorem stop_eq_length (h : start ≤ ts.length) (nothing : (r.run (ts.drop start)).2 = []) :
    r.stop ts start = ts.length := by
  rw [stop, used, nothing, List.length_drop, List.length_nil]
  omega

/-- A reader that takes a token stops behind its start. -/
theorem lt_stop (taken : (r.run (ts.drop start)).2.length < (ts.drop start).length) :
    start < r.stop ts start := by
  rw [stop, used]
  omega

/-! ### Readers that take a token -/

/-- Where there is a token, one is taken. -/
def Takes (r : Reader α) : Prop := ∀ ts, ts ≠ [] → (r.run ts).2.length < ts.length

namespace Takes

theorem next : Takes next := by
  intro ts hne
  rw [run_next, List.length_tail]
  have := List.length_pos_iff.mpr hne
  omega

/-- The first step of a sequence may be the one that takes the token. -/
theorem bind (h : Takes r) : Takes (r >>= f) :=
  fun ts hne => Nat.lt_of_le_of_lt (length_run_le (f _) _) (h ts hne)

end Takes

/-! ### Results that come only at the end -/

/-- A result with the property comes only where nothing is left. -/
def EndsOn (r : Reader α) (P : α → Prop) : Prop := ∀ ts, P (r.run ts).1 → (r.run ts).2 = []

namespace EndsOn

variable {P : α → Prop} {Q : β → Prop} {r' : Reader α}

/-- A reader whose results never have the property. -/
theorem never (h : r.Ensures fun a => ¬P a) : EndsOn r P := fun ts found => absurd found (h ts)

/-- A step about which nothing is known. -/
theorem step (h : ∀ a, EndsOn (f a) Q) : EndsOn (r >>= f) Q := fun _ => h _ _

/-- Where the first step leaves nothing, the next one leaves nothing either. -/
theorem bind (hr : EndsOn r P) (hf : ∀ a, P a ∨ EndsOn (f a) Q) : EndsOn (r >>= f) Q := by
  intro ts found
  rw [run_bind] at found ⊢
  rcases hf (r.run ts).1 with ends | later
  · rw [hr ts ends]
    exact List.suffix_nil.mp ((f _).suffix [])
  · exact later _ found

theorem ite {c : Prop} [Decidable c] (hr : EndsOn r P) (hr' : EndsOn r' P) :
    EndsOn (if c then r else r') P := by
  split
  · exact hr
  · exact hr'

end EndsOn

/-! ### Loops that end by themselves -/

/-- A round that goes on has taken a token, and one that stops leaves what `P` says. -/
inductive Turns (P : σ → List Token → Prop) (ts : List Token) : Round σ × List Token → Prop
  | more {s : σ} {rest : List Token} (taken : rest.length < ts.length) : Turns P ts (.more s, rest)
  | done {s : σ} {rest : List Token} (h : P s rest) : Turns P ts (.done s, rest)

/-- The rounds of a loop come to one that stops, however many there may be. -/
theorem exists_iterates {step : σ → Reader (Round σ)} {P : σ → List Token → Prop}
    (turns : ∀ s ts, Turns P ts ((step s).run ts)) (s : σ) (ts : List Token) :
    ∃ s' rest, Iterates step s ts s' rest ∧ P s' rest := by
  induction hn : ts.length using Nat.strong_induction_on generalizing s ts with
  | _ n ih =>
    subst hn
    have turn := turns s ts
    rcases round : (step s).run ts with ⟨next, left⟩
    rw [round] at turn
    cases turn with
    | done h => exact ⟨_, left, .done round, h⟩
    | more taken =>
        obtain ⟨s', rest, iterates, h⟩ := ih left.length taken _ left rfl
        exact ⟨s', rest, .more round taken iterates, h⟩

end Reader

namespace Query

open Reader (Iterates Round Turns Takes EndsOn)

variable {s : Scope} {onlyFilters : Bool} {field : Option Text} {ts : List Token}

/-! ### One operation -/

/-- A word filter takes whatever token comes next. -/
theorem takes_readOperation_word (s : Scope) (field : Option Text) :
    Takes (readOperation s .word field) :=
  Takes.bind (Takes.next.bind (f := fun _ => _))

/-- A round of a filter goes on only behind a negation sign that it has taken. Unless nothing is
left, it has found an operation where it stops. -/
theorem turns_readFilterRound (s : Scope) (onlyFilters : Bool) (field : Option Text)
    (ops : List Operation) (ts : List Token) :
    Turns (fun ops rest => ops ≠ [] ∨ rest = []) ts
      ((readFilterRound s onlyFilters field ops).run ts) := by
  have found {more : List Operation} (h : more ≠ []) {rest : List Token} :
      ops ++ more ≠ [] ∨ rest = [] := .inl (List.append_ne_nil_of_right_ne_nil _ h)
  have single {op : Operation} {rest : List Token} : ops ++ [op] ≠ [] ∨ rest = [] :=
    found (List.cons_ne_nil op [])
  rw [readFilterRound, Reader.run_bind, Reader.run_look]
  dsimp only
  split
  · exact .done single
  · split
    · refine .done (found ?_)
      split
      · exact List.cons_ne_nil _ _
      · exact List.cons_ne_nil _ _
    · split
      · exact .done single
      · cases ts with
        | nil =>
            cases field with
            | none => exact .done (.inr rfl)
            | some f => exact .done single
        | cons t ts =>
            dsimp only
            split
            · exact .done single
            · split
              · cases field with
                | none => exact .done single
                | some f => exact .more (Nat.lt_succ_self ts.length)
              · rw [Reader.run_bind]
                split
                · exact .done single
                · exact .done single

/-- The negation signs behind a field are read up to the last one. -/
theorem exists_iterates_readFilterRound (s : Scope) (onlyFilters : Bool) (field : Option Text)
    (ts : List Token) : ∃ ops rest,
      Iterates (readFilterRound s onlyFilters field) [] ts ops rest ∧ (ops ≠ [] ∨ rest = []) :=
  Reader.exists_iterates (turns_readFilterRound s onlyFilters field) [] ts

theorem endsOn_nil_readFilter : EndsOn (readFilter s onlyFilters field) (· = []) := by
  intro ts nothing
  obtain ⟨ops, rest, iterates, found⟩ := exists_iterates_readFilterRound s onlyFilters field ts
  rw [readFilter, iterates.run_loop] at nothing ⊢
  exact found.resolve_left fun some => some nothing

/-- A bracket that its keyword leaves behind is a token that is still to be read. -/
theorem endsOn_afterKeyword {α : Type} {P : α → Prop} {r : Reader α} (h : EndsOn r P) :
    EndsOn (afterKeyword r) P := by
  intro ts found
  unfold afterKeyword at found ⊢
  dsimp only at found ⊢
  split at found
  · split at found
    · next bare =>
      rw [if_pos bare]
      exact h _ found
    · next named =>
      rw [if_neg named, h _ found]
      simp
  · exact h _ found

/-- A pipe is one operation, or a filter that was looked for up to the end. -/
theorem endsOn_nil_readPipe? : EndsOn (readPipe? s) (· = some []) := by
  have one (r : Reader Operation) : EndsOn (do return some [← r]) (· = some []) :=
    .never (.step fun _ => .pure (by simp))
  have filter : EndsOn (afterKeyword do readFilter s true (← Reader.takeFieldName s)) (· = []) :=
    endsOn_afterKeyword (.step fun _ => endsOn_nil_readFilter)
  refine .step fun next => ?_
  dsimp only
  refine .ite (filter.bind fun ops => ?_) ?_
  · cases ops with
    | nil => exact .inl rfl
    | cons op ops => exact .inr (.never (.pure (by simp)))
  · split
    · exact .never (.pure (by simp))
    · exact .ite (one _) (one _)

theorem endsOn_nil_readNext : EndsOn (readNext s onlyFilters) (· = []) := by
  refine .step fun field => .ite (endsOn_nil_readPipe?.bind fun found => ?_) endsOn_nil_readFilter
  cases found with
  | none => exact .inr endsOn_nil_readFilter
  | some ops =>
      cases ops with
      | nil => exact .inl rfl
      | cons op ops => exact .inr (.never (.pure (by simp)))

/-! ### A segment -/

/-- A round of a segment goes on behind a token that it has taken, and stops where nothing is
left. -/
theorem turns_readSegmentRound (s : Scope) (onlyFilters : Bool) (ops : List Operation)
    (ts : List Token) :
    Turns (fun _ rest => rest = []) ts ((readSegmentRound s onlyFilters ops).run ts) := by
  rw [readSegmentRound, Reader.run_bind, Reader.run_look]
  dsimp only
  split
  · next blank => exact .done (List.isEmpty_iff.mp blank)
  · next some =>
    have shorter := Reader.length_run_le (readNext s onlyFilters) ts
    rw [Reader.run_bind]
    split
    · next nothing => exact .done (endsOn_nil_readNext ts (List.isEmpty_iff.mp nothing))
    · rw [Reader.run_bind, Reader.run_look]
      dsimp only
      split
      · next stuck =>
        have left := eq_of_beq stuck
        have hne : ((readNext s onlyFilters).run ts).2 ≠ [] := by
          rw [← List.length_pos_iff, left, List.length_pos_iff]
          simpa using some
        refine .more ?_
        rw [← left]
        exact takes_readOperation_word s none _ hne
      · next moved =>
        have moved : ((readNext s onlyFilters).run ts).2.length < ts.length :=
          Nat.lt_of_le_of_ne shorter (by simpa using moved)
        split
        · exact .more (Nat.lt_of_le_of_lt (Reader.length_run_le (takeMoreStats s) _) moved)
        · exact .more moved

/-- Where there is a token, a round of a segment takes one. -/
theorem takes_readSegmentRound (s : Scope) (onlyFilters : Bool) (ops : List Operation) :
    Takes (readSegmentRound s onlyFilters ops) := by
  intro ts hne
  have turn := turns_readSegmentRound s onlyFilters ops ts
  rcases round : (readSegmentRound s onlyFilters ops).run ts with ⟨next, rest⟩
  rw [round] at turn
  cases turn with
  | more taken => exact taken
  | done nothing => exact nothing ▸ List.length_pos_iff.mpr hne

/-! ### The driver -/

/-- How reading moves from a position in a token list. -/
structure Advances (s : Scope) (onlyFilters : Bool) (ts : List Token) (start : Nat) : Prop where
  /-- The next operation ends between the position and the end of the tokens. -/
  within : start ≤ (readNext s onlyFilters).stop ts start ∧
    (readNext s onlyFilters).stop ts start ≤ ts.length
  /-- Reading goes on with the tokens from there. -/
  rest : ((readNext s onlyFilters).run (ts.drop start)).2 =
    ts.drop ((readNext s onlyFilters).stop ts start)
  /-- Nothing is read only if that is the end. -/
  nothing : ((readNext s onlyFilters).run (ts.drop start)).1 = [] →
    (readNext s onlyFilters).stop ts start = ts.length
  /-- A round of a segment takes a token if there is one. -/
  round (ops : List Operation) : start < ts.length →
    start < (readSegmentRound s onlyFilters ops).stop ts start ∧
      (readSegmentRound s onlyFilters ops).stop ts start ≤ ts.length

theorem advances (s : Scope) (onlyFilters : Bool) {start : Nat} (h : start ≤ ts.length) :
    Advances s onlyFilters ts start where
  within := ⟨Reader.le_stop _ ts start, Reader.stop_le _ h⟩
  rest := Reader.run_drop _ ts start
  nothing found := Reader.stop_eq_length h (endsOn_nil_readNext _ found)
  round ops more := by
    have hne : ts.drop start ≠ [] := by simpa using more
    exact ⟨Reader.lt_stop (takes_readSegmentRound s onlyFilters ops _ hne), Reader.stop_le _ h⟩

/-- The parameters of every operation are read from no more tokens than there are. From any
position reading moves on, and it finds nothing only at the end. So the loop over negations and
the loop over a segment end by themselves, and the segment is read to its last token. -/
theorem reading_progresses (s : Scope) (id : OperationId) (field : Option Text)
    (onlyFilters : Bool) (ts : List Token) {start : Nat} (h : start ≤ ts.length) :
    (((define s id).read field).used ts ≤ ts.length ∧
      (((define s id).read field).run ts).2 = ts.drop (((define s id).read field).used ts)) ∧
    Advances s onlyFilters ts start ∧
    (∃ ops rest, Iterates (readFilterRound s onlyFilters field) [] ts ops rest ∧
      (readFilter s onlyFilters field).run ts = (ops, rest)) ∧
    ∃ ops, Iterates (readSegmentRound s onlyFilters) [] ts ops [] ∧
      readSegment s onlyFilters ts = ops := by
  obtain ⟨filters, rest, negations, -⟩ := exists_iterates_readFilterRound s onlyFilters field ts
  obtain ⟨ops, -, segment, rfl⟩ :=
    Reader.exists_iterates (turns_readSegmentRound s onlyFilters) [] ts
  refine ⟨⟨Reader.used_le _ ts, Reader.run_eq_drop _ ts⟩, advances s onlyFilters h,
    ⟨filters, rest, negations, negations.run_loop⟩, ops, segment, ?_⟩
  rw [readSegment, segment.run_loop]

/-- Negation signs behind a field, a keyword without its operand, and a bracket that belongs to
its keyword, read from the third token on. -/
theorem reading_progresses_negations :
    let ts := tokenize "a:!-! len filter(b) count(), where"
    2 ≤ ts.length ∧
      (((define {} .len).read none).used ts ≤ ts.length ∧
        (((define {} .len).read none).run ts).2 = ts.drop (((define {} .len).read none).used ts)) ∧
      Advances {} false ts 2 ∧
      (∃ ops rest, Iterates (readFilterRound {} false none) [] ts ops rest ∧
        (readFilter {} false none).run ts = (ops, rest)) ∧
      ∃ ops, Iterates (readSegmentRound {} false) [] ts ops [] ∧ readSegment {} false ts = ops := by
  intro ts
  have start : 2 ≤ ts.length := by decide
  exact ⟨start, reading_progresses {} .len none false ts start⟩

end Query

end LogQuery
