import LogQuery.Proofs.Query.First
import LogQuery.Proofs.Token.Reading

/-!
# Where the operations of a query come from

Reading a segment takes one operation after the other from the tokens that are left. A stats
function is read where the tokens start with its name; the id of any other operation is chosen by
the rules for filters and pipes, and no rule chooses a comment. So what holds of each operation
when it is read holds of all operations of the segment.
-/

namespace LogQuery.Query

open Reader (From)

variable {s : Scope} {onlyFilters : Bool} {field : Option Text} {id : OperationId}
  {ts : List Token} {ops : List Operation} {G : Token → Prop} {P : Operation → Prop}

/-! ### The operation that is chosen -/

/-- What is chosen, if anything is, is neither a stats function nor a comment. -/
def Chooses (choice : Option OperationId) : Prop :=
  ∀ id ∈ choice, id.category ≠ .stats ∧ id ≠ .comment

namespace Chooses

variable {a b : Option OperationId}

theorem none : Chooses none := fun _ h => absurd h (Option.not_mem_none _)

theorem some (h : id.category ≠ .stats ∧ id ≠ .comment) : Chooses (some id) := by
  intro other hother
  cases hother
  exact h

theorem ite {c : Prop} [Decidable c] (ha : Chooses a) (hb : Chooses b) :
    Chooses (if c then a else b) := by
  split
  · exact ha
  · exact hb

theorem orElse (ha : Chooses a) (hb : Chooses b) : Chooses (a <|> b) := by
  cases a with
  | none => simpa using hb
  | some id => simpa using ha

end Chooses

theorem chooses_reservedField? : Chooses (reservedField? field ts) :=
  .ite (.ite (.some (by decide)) (.ite (.some (by decide)) (.some (by decide))))
    (.ite (.some (by decide)) (.ite (.some (by decide)) .none))

theorem chooses_bracketFilter? : Chooses (bracketFilter? ts) := by
  unfold bracketFilter?
  split
  · exact .ite (.ite (.some (by decide)) (.ite (.some (by decide)) (.some (by decide))))
      (.ite (.some (by decide)) .none)
  · exact .none

theorem chooses_signFilter? : Chooses (signFilter? ts) := by
  unfold signFilter?
  split
  · exact .none
  · exact .ite (.some (by decide)) (.ite (.some (by decide)) (.ite (.some (by decide)) .none))

theorem chooses_callFilter? : Chooses (callFilter? onlyFilters ts) := by
  have listed : ∀ call ∈ calls, call.2.category ≠ .stats ∧ call.2 ≠ .comment := by
    decide
  unfold callFilter?
  dsimp only
  split
  · next found => exact .some (listed _ (List.mem_of_find?_eq_some found))
  · exact .ite (.some (by decide)) .none

theorem chooses_pipeOfKeyword? (keyword : Text) : Chooses (pipeOfKeyword? keyword) := by
  apply Chooses.ite (.some (by decide))
  apply Chooses.ite (.some (by decide))
  intro id named
  rw [OperationId.pipe?, OperationId.named?] at named
  have pipe : id ∈ OperationId.ofCategory .pipes := List.mem_of_find?_eq_some named
  have category : id.category = .pipes := by simpa using (List.mem_filter.mp pipe).2
  constructor
  · simp [category]
  · rintro rfl
    contradiction

/-! ### What holds of the operations of a segment -/

/-- The property holds of every operation at the moment when it is read from tokens of the kind. -/
structure Origin (s : Scope) (G : Token → Prop) (P : Operation → Prop) : Prop where
  /-- A bracket whose callee was taken for a keyword is still of the kind. -/
  bare : ∀ callee raw items, G (.bracket callee raw items) → G (.bracket [] raw items)
  negation : P (.marker .not)
  chosen : ∀ id field, id.category ≠ .stats → id ≠ .comment →
    (readOperation s id field).From G P
  named : ∀ ts id, (∀ t ∈ ts, G t) → ts.head?.bind statsName? = some id →
    P ((readOperation s id none).run ts).1

/-- The property holds of all operations of a list. -/
def Every (P : Operation → Prop) (ops : List Operation) : Prop := ∀ op ∈ ops, P op

namespace Every

theorem nil : Every P [] := fun _ h => absurd h List.not_mem_nil

theorem singleton {op : Operation} (h : P op) : Every P [op] := by
  intro other hother
  rwa [List.mem_singleton.mp hother]

theorem append {more : List Operation} (h : Every P ops) (hmore : Every P more) :
    Every P (ops ++ more) :=
  fun op hop => (List.mem_append.mp hop).elim (h op) (hmore op)

end Every

namespace Origin

theorem takeStats? (h : Origin s G P) :
    (takeStats? s).From G fun found => Every P found.toList := by
  intro ts hts
  rw [Query.takeStats?, Reader.run_bind, Reader.run_peek]
  dsimp only
  split
  · next named => exact .singleton (h.named ts _ hts named)
  · exact .nil

theorem readFilterRound (h : Origin s G P) (hops : Every P ops) :
    (readFilterRound s onlyFilters field ops).From G
      fun next => Every P next.state := by
  have readAs {id : OperationId} (ordinary : id.category ≠ .stats ∧ id ≠ .comment) :
      (do return .done (ops ++ [← readOperation s id field]) :
        Reader (Reader.Round (List Operation))).From G
          fun next => Every P next.state :=
    (h.chosen id field ordinary.1 ordinary.2).bind fun _ hop => .pure (hops.append (.singleton hop))
  refine .step fun ts => ?_
  dsimp only
  split
  · next single =>
    exact readAs (chooses_reservedField?.orElse
      (chooses_bracketFilter?.orElse chooses_signFilter?) _ single)
  · split
    · next named negated _ =>
      refine .step fun _ => (h.chosen _ (some named) (by decide) (by decide)).bind
        fun op hop => .pure (hops.append ?_)
      split
      · exact Every.append (.singleton h.negation) (.singleton hop)
      · exact .singleton hop
    · split
      · next call => exact readAs (chooses_callFilter? _ call)
      · split
        · exact .ite (readAs (by decide)) (.pure hops)
        · refine .ite (readAs (by decide)) (.ite (.step fun _ => .pure ?_) ?_)
          · split
            · exact hops.append (.singleton h.negation)
            · exact hops.append (.singleton h.negation)
          · refine h.takeStats?.bind fun found hfound => ?_
            cases found with
            | some op => exact .pure (hops.append hfound)
            | none => exact readAs (by decide)

theorem readFilter (h : Origin s G P) :
    (readFilter s onlyFilters field).From G (Every P) :=
  .loop (fun _ hops => h.readFilterRound hops) .nil

/-- Leaving a bracket behind gives other tokens of the kind to the reader. -/
theorem afterKeyword (h : Origin s G P) {α : Type} {r : Reader α} {Q : α → Prop}
    (hr : r.From G Q) : (afterKeyword r).From G Q := by
  intro ts hts
  unfold Query.afterKeyword
  dsimp only
  split
  · next callee raw items ts =>
    have rest : ∀ t ∈ ts, G t := fun t ht => hts t (List.mem_cons_of_mem _ ht)
    split
    · exact hr ts rest
    · apply hr
      intro t ht
      rcases List.mem_cons.mp ht with rfl | ht
      · exact h.bare callee raw items (hts _ List.mem_cons_self)
      · exact rest t ht
  · exact hr _ fun t ht => hts t (List.mem_of_mem_tail ht)

theorem readPipe? (h : Origin s G P) :
    (readPipe? s).From G fun found => ∀ ops ∈ found, Every P ops := by
  have readAs {r : Reader (List Operation)}
      (hr : r.From G (Every P)) :
      (do return some (← r)).From G fun found => ∀ ops ∈ found, Every P ops :=
    hr.bind fun ops hops => .pure fun _ found => Option.mem_some.mp found ▸ hops
  refine .step fun next => ?_
  dsimp only
  refine .ite (readAs (h.afterKeyword (.step fun _ => h.readFilter))) ?_
  split
  · exact .pure fun _ found => absurd found (Option.not_mem_none _)
  · next id pipe =>
    obtain ⟨notStats, notComment⟩ := chooses_pipeOfKeyword? _ id pipe
    have one := h.chosen id none notStats notComment
    have alone {r : Reader Operation} (hr : r.From G P) :
        (do return [← r] : Reader (List Operation)).From G (Every P) :=
      hr.bind fun _ hop => .pure (.singleton hop)
    exact .ite (readAs (alone one)) (readAs (alone (h.afterKeyword one)))

theorem readNext (h : Origin s G P) :
    (readNext s onlyFilters).From G (Every P) := by
  refine .step fun field => .ite (h.readPipe?.bind fun found hfound => ?_) h.readFilter
  cases found with
  | some ops => exact .pure (hfound ops rfl)
  | none => exact h.readFilter

theorem takeMoreStats (h : Origin s G P) :
    (takeMoreStats s).From G (Every P) :=
  .loop (fun _ hops => .step fun _ =>
    .ite (h.takeStats?.bind fun _ hfound => .pure (hops.append hfound)) (.pure hops)) .nil

theorem readSegmentRound (h : Origin s G P) (hops : Every P ops) :
    (readSegmentRound s onlyFilters ops).From G
      fun next => Every P next.state := by
  refine .step fun before => .ite (.pure hops) (h.readNext.bind fun found hfound => ?_)
  refine .ite (.pure hops) (.step fun after => .ite ?_ ?_)
  · exact (h.chosen _ none (by decide) (by decide)).bind
      fun _ hop => .pure (hops.append (.singleton hop))
  · exact .ite
      (h.takeMoreStats.bind fun _ hmore => .pure ((hops.append hfound).append hmore))
      (.pure ((hops.append hfound).append .nil))

/-- The property holds of every operation that is read from a segment of tokens of the kind. -/
theorem readSegment (h : Origin s G P) (onlyFilters : Bool) (hts : ∀ t ∈ ts, G t) :
    Every P (readSegment s onlyFilters ts) :=
  Reader.From.loop (fun _ hops => h.readSegmentRound hops) .nil ts hts

/-! ### The operations of runs -/

section Runs

variable (connective : ∀ id ∈ [OperationId.and, .or, .not], P (.marker id))
  (comment : ∀ c, P { id := .comment, params := [.text c] })
include connective comment

theorem readRun (h : Origin s G P) (afterConnective : Bool) {run : List Token}
    (hrun : ∀ t ∈ run, t.isComment = false → G t) :
    Every P (readRun s afterConnective run).1 := by
  unfold Query.readRun
  split
  · exact .nil
  · next first rest =>
    split
    · next id found =>
      obtain ⟨w, -, found⟩ := Option.bind_eq_some_iff.mp found
      exact .singleton (connective id (List.mem_of_find?_eq_some found))
    · refine (h.readSegment afterConnective fun t ht => ?_).append fun op hop => ?_
      · obtain ⟨ht, apart⟩ := List.mem_filter.mp ht
        exact hrun t ht (by simpa using apart)
      · obtain ⟨c, -, rfl⟩ := List.mem_map.mp hop
        exact comment c

/-- The property holds of all operations of runs whose tokens, comments apart, are of the kind. -/
theorem readRuns (h : Origin s G P) (afterConnective : Bool) {runs : List (List Token)}
    (hruns : ∀ run ∈ runs, ∀ t ∈ run, t.isComment = false → G t) :
    Every P (readRuns s afterConnective runs).1 := by
  induction runs generalizing afterConnective with
  | nil => exact .nil
  | cons run runs ih =>
      refine (h.readRun connective comment afterConnective (hruns run List.mem_cons_self)).append ?_
      exact ih _ fun other hother => hruns other (List.mem_cons_of_mem run hother)

/-- The property holds of all operations of a query whose tokens, comments apart, are of the
kind. -/
theorem read (h : Origin s G P) {expr : Text}
    (hexpr : ∀ t ∈ tokenize expr, t.isComment = false → G t) :
    Every P (read { scope := s } expr).operations := by
  rw [operations_read]
  refine h.readRuns connective comment false fun run hrun t ht => hexpr t ?_
  obtain ⟨stage, hstage, hrun⟩ := List.mem_flatMap.mp hrun
  have inStage : t ∈ stage := Segment.flatten_runs stage ▸ List.mem_flatten_of_mem hrun ht
  have inStages : t ∈ (Segment.stages (tokenize expr)).flatten :=
    List.mem_flatten_of_mem hstage inStage
  rw [Segment.stages, Segment.splitAtText, Segment.flatten_splitAt] at inStages
  exact List.mem_of_mem_filter inStages

end Runs

/-- A property of the operations with one id, which is that of no connective and of no comment. -/
theorem read_of_id (h : Origin s G fun op => op.id = id → P op)
    (hid : id ∉ [OperationId.and, .or, .not, .comment]) {expr : Text}
    (hexpr : ∀ t ∈ tokenize expr, t.isComment = false → G t) :
    Every (fun op => op.id = id → P op) (Query.read { scope := s } expr).operations := by
  simp only [List.mem_cons, List.not_mem_nil, or_false, not_or] at hid
  obtain ⟨and, or, not, comment⟩ := hid
  refine h.read ?_ ?_ hexpr
  · intro other known same
    simp only [List.mem_cons, List.not_mem_nil, or_false] at known
    change other = id at same
    rcases known with rfl | rfl | rfl
    · exact absurd same.symm and
    · exact absurd same.symm or
    · exact absurd same.symm not
  · intro c same
    exact absurd same.symm comment

end Origin

end LogQuery.Query
