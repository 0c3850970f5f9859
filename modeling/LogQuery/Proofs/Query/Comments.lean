import LogQuery.Proofs.Query.Layout
import LogQuery.Proofs.Query.Middle

/-!
# The comments of a query

Cutting a query into stages and runs loses no token but the cuts, and of every run the comments
are put behind its operations. So the comments come out as they stand in the text. The one cut
that a comment can be mistaken for is the pipe, which is told from other tokens by its text alone:
a comment that says no more than a bar ends its stage and is dropped. A comment is never mistaken
for a connective, which has to be a word.
-/

namespace LogQuery

namespace Token

/-- The texts of the comments among tokens. -/
def comments (ts : List Token) : List Text := ts.filterMap comment?

theorem comments_flatten (tss : List (List Token)) :
    comments tss.flatten = tss.flatMap comments := by
  rw [comments, List.filterMap_flatten, List.flatMap_def]
  rfl

/-- Leaving out the tokens with a text leaves out the comments with this text. -/
theorem comments_filter_hasText (u : Text) (ts : List Token) :
    comments (ts.filter fun t => !t.hasText u) = (comments ts).filter (· != u) := by
  have one (t : Token) : (if (!t.hasText u) = true then t.comment? else none) =
      t.comment?.filter (· != u) := by
    cases t with
    | comment c =>
        change (if (!(some c == some u)) = true then some c else none) = _
        by_cases same : c = u
        · simp [same, comment?, Option.filter]
        · simp [same, comment?, Option.filter]
    | _ => simp [comment?]
  rw [comments, List.filterMap_filter, comments, List.filter_filterMap]
  simp only [one]

end Token

namespace Segment

/-! ### Cuts -/

/-- A run that starts with a connective is the connective alone. -/
def IsWhole (run : List Token) : Prop :=
  ∀ t us, run = t :: us → t.isConnective = true → us = []

theorem isWhole_of_mem_runs {ts run : List Token} (h : run ∈ runs ts) : IsWhole run := by
  induction ts generalizing run with
  | nil => contradiction
  | cons t ts ih =>
      rw [runs] at h
      split at h
      · rcases List.mem_cons.mp h with rfl | h
        · intro k us empty
          contradiction
        · rcases List.mem_cons.mp h with rfl | h
          · intro k us single _
            exact (List.cons.inj single).2.symm
          · exact ih h
      · next free =>
        have first (us : List Token) : IsWhole (t :: us) := by
          intro k vs split connective
          rw [← (List.cons.inj split).1] at connective
          exact absurd connective free
        cases parts : runs ts with
        | nil =>
            rw [parts] at h
            rw [List.mem_singleton.mp h]
            exact first []
        | cons next rest =>
            rw [parts] at h
            rcases List.mem_cons.mp h with rfl | h
            · exact first next
            · exact ih (by simp [parts, h])

end Segment

namespace Query

variable {s : Scope}

/-! ### Comments as operations -/

/-- The texts of the comments among operations. -/
def comments (ops : List Operation) : List Text :=
  (ops.filter fun op => op.id == .comment).map fun op => op.text 0

theorem comments_append (ops more : List Operation) :
    comments (ops ++ more) = comments ops ++ comments more := by
  rw [comments, List.filter_append, List.map_append]
  rfl

/-- No reader of operations gives a comment, whatever the tokens say. -/
theorem origin_noComment (s : Scope) :
    Origin s (fun _ => True) fun op => op.id ≠ .comment where
  bare _ _ _ _ := trivial
  negation := by simp [Operation.marker]
  chosen _ _ _ notComment := fun _ _ => notComment
  named _ _ _ named := Stats.ne_of_named named (by decide)

theorem comments_readSegment (b : Bool) (ts : List Token) : comments (readSegment s b ts) = [] := by
  have none : Every (fun op => op.id ≠ .comment) (readSegment s b ts) :=
    (origin_noComment s).readSegment b fun _ _ => trivial
  have nothing : (readSegment s b ts).filter (fun op => op.id == .comment) = [] := by
    rw [List.filter_eq_nil_iff]
    intro op hop
    simpa using none op hop
  rw [comments, nothing]
  rfl

theorem comments_map (cs : List Text) :
    comments (cs.map fun c => { id := .comment, params := [.text c] }) = cs := by
  induction cs with
  | nil => rfl
  | cons c cs ih =>
      rw [List.map_cons, ← List.singleton_append, comments_append, ih]
      rfl

theorem comments_readRun (b : Bool) {run : List Token} (whole : Segment.IsWhole run) :
    comments (readRun s b run).1 = Token.comments run := by
  cases run with
  | nil => rfl
  | cons t us =>
      cases connective : t.isConnective with
      | true =>
          obtain rfl := whole t us rfl connective
          obtain ⟨w, word⟩ : ∃ w, t.word? = some w := by
            rw [Token.isConnective] at connective
            exact Option.isSome_iff_exists.mp (Option.isSome_of_any connective)
          obtain rfl : t = .word w := by cases t <;> simp_all [Token.word?]
          rw [readRun]
          split
          · next id found =>
            have marker : id ≠ .comment := by
              rintro rfl
              obtain ⟨v, -, chosen⟩ := Option.bind_eq_some_iff.mp found
              have listed := List.mem_of_find?_eq_some chosen
              contradiction
            have other : (id == OperationId.comment) = false := by simpa using marker
            simp [comments, Operation.marker, other, Token.comments, Token.comment?]
          · rw [comments_append, comments_readSegment]
            rfl
      | false =>
          rw [readRun, connective?_eq_none connective]
          dsimp only
          rw [comments_append, comments_readSegment, comments_map]
          rfl

theorem comments_readRuns (b : Bool) {rs : List (List Token)}
    (whole : ∀ run ∈ rs, Segment.IsWhole run) :
    comments (readRuns s b rs).1 = rs.flatMap Token.comments := by
  induction rs generalizing b with
  | nil => rfl
  | cons run rs ih =>
      have rest : ∀ other ∈ rs, Segment.IsWhole other :=
        fun other h => whole other (List.mem_cons_of_mem run h)
      rw [readRuns, comments_append, comments_readRun b (whole run List.mem_cons_self), ih _ rest,
        List.flatMap_cons]

theorem flatten_allRuns (ts : List Token) :
    (allRuns ts).flatten = ts.filter fun t => !t.hasText ['|'] := by
  have runs (stage : List Token) : List.flatMap id (Segment.runs stage) = stage := by
    rw [List.flatMap_id, Segment.flatten_runs]
  rw [allRuns, ← List.flatMap_id, List.flatMap_assoc]
  simp only [runs]
  exact (List.flatMap_id).trans (Segment.flatten_splitAt _ ts)

/-- The comments of a query are those of its text that say more than a bar. -/
theorem comments_read (s : Scope) (expr : Text) :
    comments (read { scope := s } expr).operations =
      (Token.comments (tokenize expr)).filter (· != ['|']) := by
  have whole : ∀ run ∈ allRuns (tokenize expr), Segment.IsWhole run := by
    intro run hrun
    obtain ⟨stage, -, hrun⟩ := List.mem_flatMap.mp hrun
    exact Segment.isWhole_of_mem_runs hrun
  rw [operations_read]
  change comments (readRuns s false (allRuns (tokenize expr))).1 = _
  rw [comments_readRuns false whole, ← Token.comments_flatten, flatten_allRuns,
    Token.comments_filter_hasText]

/-- The comments of a query come out as they stand in its text, exactly if none of them is a
bar alone. -/
theorem comments_read_iff (s : Scope) (expr : Text) :
    comments (read { scope := s } expr).operations = Token.comments (tokenize expr) ↔
      ['|'] ∉ Token.comments (tokenize expr) := by
  rw [comments_read, List.filter_eq_self]
  constructor
  · intro all bar
    simpa using all _ bar
  · intro none c hc
    have other : c ≠ ['|'] := by
      rintro rfl
      exact none hc
    simpa using other

/-- A comment that is a bar ends the stage and is lost. -/
theorem comments_read_bar :
    let expr : Text := "# |"
    Token.comments (tokenize expr) = [['|']] ∧ comments (read {} expr).operations = [] := by
  decide

end Query

end LogQuery
