import LogQuery.Proofs.Query.Joint
import LogQuery.Suggest.Scope

/-!
# What a scope starts with

The names that an operation can use are looked up in the results of the operations before it. Where
these start with a pipe, the query of everything is put in front. Whether they do is asked of the
first operation of the list, whereas the text starts with the first one that is written. The two
are not the same where the list starts with operations that are switched off: a filter that is
switched off hides that the text behind it starts with a pipe.
-/

namespace LogQuery

/-- A pipe or a stats function. -/
def OperationId.isStage (id : OperationId) : Bool := id.category == .pipes || id.category == .stats

/-! ### What is written first -/

theorem Pipe.Selection.keyword_prefix_write (op : Operation) : op.id.keyword <+: write op [] := by
  have whole : op.id.keyword <+: op.id.keyword ++ " " ++ op.text 0 :=
    (List.prefix_append _ _).trans (List.prefix_append _ _)
  exact (Text.isName_keyword op.id).tight.prefix_dropEndWhile (fun _ blank => blank) whole

/-- Without any mappings a `rename` writes nothing. -/
theorem Pipe.Mapping.keyword_prefix_write {op : Operation} (written : write op [] ≠ []) :
    op.id.keyword <+: write op [] := by
  unfold write at written ⊢
  dsimp only at written ⊢
  split
  · next nothing => exact absurd (if_pos nothing) written
  · exact (List.prefix_append _ _).trans (List.prefix_append _ _)

/-- At the start of a query a pipe or a stats function is written with its keyword first, if
anything is written at all. -/
theorem Definition.keyword_prefix_write (s : Scope) {op : Operation} (stage : op.id.isStage = true)
    (written : (define s op.id).write op [] ≠ []) :
    op.id.keyword <+: (define s op.id).write op [] := by
  obtain ⟨id, params, disabled⟩ := op
  cases id
  case delete | fields => exact Pipe.Selection.keyword_prefix_write _
  case copy | rename => exact Pipe.Mapping.keyword_prefix_write written
  -- the others are no stages, or are written as their keyword and something behind it
  all_goals first
    | contradiction
    | exact ⟨_, rfl⟩

namespace Writer

variable {w : Writer} {st : State} {op : Operation} {ops : List Operation} {k : Text}

/-- The first operation that is not switched off. -/
def firstEnabled? (ops : List Operation) : Option Operation := ops.find? fun op => !op.disabled

/-- A tight start is never taken back. -/
theorem lasts_prefixed (hk : k.Tight) : Lasts fun t => k <+: t where
  dropped h := by
    apply hk.prefix_dropEndWhile _ h
    intro c space
    rw [beq_iff_eq] at space
    rw [space]
    decide
  followed h start := h.trans start

theorem foldl_disabled (h : ∀ op ∈ ops, op.disabled = true) (st : State) :
    ops.foldl w.step st = st := by
  induction ops with
  | nil => rfl
  | cons op ops ih =>
      have skipped : w.step st op = st := by rw [step, if_pos (h op (by simp))]
      rw [List.foldl_cons, skipped]
      exact ih fun o ho => h o (by simp [ho])

/-- Nothing stands before the first operation, so it is written as it is. -/
theorem step_start (hw : w.categories = Category.all) (enabled : op.disabled = false) :
    (w.step { out := [] } op).out = (define w.scope op.id).write op [] := by
  rw [step_enabled hw enabled, append]
  simp only [Option.isNone_none, Bool.true_or, if_true, joinSpace_nil]
  have nothing : dropSpaces [] = [] := rfl
  split_ifs <;> simp [nothing]

/-- A query starts with what its first enabled operation writes. -/
theorem prefix_writeOperations (hw : w.categories = Category.all) (hk : k.Tight)
    (first : firstEnabled? ops = some op) (h : k <+: (define w.scope op.id).write op []) :
    k <+: w.writeOperations ops := by
  obtain ⟨enabled, before, after, rfl, disabled⟩ := List.find?_eq_some_iff_append.mp first
  have enabled : op.disabled = false := by simpa using enabled
  have skipped : ∀ o ∈ before, o.disabled = true := by simpa using disabled
  have start : k <+: (w.step { out := [] } op).out := by rwa [step_start hw enabled]
  rw [writeOperations, writeAfter, List.foldl_append, foldl_disabled skipped, List.foldl_cons]
  exact hk.prefix_trim ((lasts_prefixed hk).foldl hw start)

theorem writeOperations_disabled (h : firstEnabled? ops = none) : w.writeOperations ops = [] := by
  have disabled : ∀ op ∈ ops, op.disabled = true := by simpa using List.find?_eq_none.mp h
  rw [writeOperations, writeAfter, foldl_disabled disabled]
  rfl

end Writer

/-! ### Scopes -/

namespace SuggestScope

open Writer (firstEnabled?)

variable {ops : List Operation} {index : Option Nat} {op : Operation}

/-- The scope starts with everything, or it is the text of the operations before the index, of
which the first enabled one is no pipe and no stats function. -/
def Grounded (ops : List Operation) (index : Option Nat) : Prop :=
  everything <+: ofNames {} ops index ∨
    ofNames {} ops index = precedingText {} ops index ∧
      ∃ op, firstEnabled? (preceding ops index) = some op ∧ op.id.isStage = false

/-- A disabled operation that is no pipe and no stats function starts the list, and the first
enabled one before the index is such a stage. -/
def HidesStage (ops : List Operation) (index : Option Nat) : Prop :=
  (∃ head ∈ ops.head?, head.disabled = true ∧ head.id.isStage = false) ∧
    ∃ op, firstEnabled? (preceding ops index) = some op ∧ op.id.isStage = true

theorem startsWithFilter_iff :
    startsWithFilter {} ops = true ↔ ∃ head ∈ ops.head?, head.id.isStage = false := by
  have category (c : Category) : [Category.filters, .operators, .special].contains c = true ↔
      (c == .pipes || c == .stats) = false := by
    cases c <;> decide
  cases ops with
  | nil => simp [startsWithFilter]
  | cons head ops =>
      rw [startsWithFilter, List.head?_cons, Option.bind_some, Writer.definition?_eq rfl]
      dsimp only
      rw [define_id, category]
      simp [OperationId.isStage]

/-- Operations before an index start with the first one of the list, if there are any. -/
theorem head?_preceding (h : preceding ops index ≠ []) :
    (preceding ops index).head? = ops.head? := by
  cases index with
  | none => rfl
  | some i =>
      cases i with
      | zero => exact absurd rfl h
      | succ i => cases ops <;> rfl

/-- Where the start of the list is enabled, nothing else is the first enabled operation. -/
theorem firstEnabled?_preceding {head : Operation} (start : ops.head? = some head)
    (enabled : head.disabled = false) (first : firstEnabled? (preceding ops index) = some op) :
    op = head := by
  have some : preceding ops index ≠ [] := by
    intro nothing
    rw [nothing] at first
    cases first
  obtain ⟨o, rest, list⟩ := List.exists_cons_of_ne_nil some
  have same := head?_preceding some
  rw [list, start] at same
  cases same
  rw [list, firstEnabled?, List.find?_cons_of_pos (by simp [enabled])] at first
  exact (Option.some.inj first).symm

/-- Where the start of the list tells what is written first, the scope does not start with a
pipe. -/
theorem grounded_of_not_hidesStage (h : ¬HidesStage ops index) : Grounded ops index := by
  rw [Grounded, ofNames]
  split
  · exact .inl List.prefix_rfl
  · next written =>
    split
    · next starts =>
      right
      obtain ⟨head, start, plain⟩ := startsWithFilter_iff.mp starts
      cases first : firstEnabled? (preceding ops index) with
      | none =>
          have nothing : precedingText {} ops index = [] := by
            rw [precedingText, Writer.writeOperations_disabled first]
            rfl
          rw [nothing] at written
          exact absurd rfl written
      | some op =>
          refine ⟨rfl, op, rfl, ?_⟩
          rw [Bool.eq_false_iff]
          intro stage
          cases disabled : head.disabled with
          | true => exact h ⟨⟨head, start, disabled, plain⟩, op, first, stage⟩
          | false =>
              have same := firstEnabled?_preceding start disabled first
              rw [same, plain] at stage
              cases stage
    · exact .inl ((List.prefix_append _ _).trans (List.prefix_append _ _))

theorem head?_keyword_ne (id : OperationId) :
    id.keyword.head? ≠ some '_' ∧ id.keyword.head? ≠ some '"' := by
  cases id <;> decide

/-- The text before the index starts with the keyword of its first operation. -/
theorem keyword_prefix_precedingText (first : firstEnabled? (preceding ops index) = some op)
    (stage : op.id.isStage = true) (written : (define {} op.id).write op [] ≠ []) :
    op.id.keyword <+: precedingText {} ops index := by
  have tight := (Text.isName_keyword op.id).tight
  have start := Definition.keyword_prefix_write {} stage written
  exact tight.prefix_trim (Writer.prefix_writeOperations rfl tight first start)

/-- Where the pipe is hidden, it is what the scope starts with. -/
theorem ofNames_of_hidesStage (h : HidesStage ops index)
    (first : firstEnabled? (preceding ops index) = some op)
    (written : (define {} op.id).write op [] ≠ []) :
    op.id.keyword <+: ofNames {} ops index ∧ ¬Grounded ops index := by
  obtain ⟨⟨head, start, -, plain⟩, o, same, stage⟩ := h
  obtain rfl : op = o := Option.some.inj (first.symm.trans same)
  have keyword := keyword_prefix_precedingText first stage written
  obtain ⟨c, cs, named⟩ := List.exists_cons_of_ne_nil (Text.isName_keyword op.id).nonempty
  have other := head?_keyword_ne op.id
  rw [named, List.head?_cons] at other
  have head : (precedingText {} ops index).head? = some c := by
    obtain ⟨r, text⟩ := keyword
    rw [← text, named]
    rfl
  have scope : ofNames {} ops index = precedingText {} ops index := by
    have something : ¬((precedingText {} ops index).isEmpty = true ∨
        precedingText {} ops index = ("\"\"" : Text)) := by
      rintro (nothing | quotes)
      · rw [List.isEmpty_iff.mp nothing] at head
        cases head
      · rw [quotes] at head
        exact other.2 head.symm
    rw [ofNames, if_neg (by simpa using something),
      if_pos (startsWithFilter_iff.mpr ⟨_, start, plain⟩)]
  refine ⟨scope ▸ keyword, ?_⟩
  rintro (⟨r, text⟩ | ⟨-, o, same, plain⟩)
  · rw [← scope, ← text] at head
    exact other.1 head.symm
  · obtain rfl : op = o := Option.some.inj (first.symm.trans same)
    rw [stage] at plain
    cases plain

/-- A scope does not start with a pipe unless the list hides one, and then it does: the scope
starts with the keyword of the first enabled operation, if that one writes anything. -/
theorem grounded_unless_hidesStage (ops : List Operation) (index : Option Nat) :
    (¬HidesStage ops index → Grounded ops index) ∧
      ∀ op, HidesStage ops index → firstEnabled? (preceding ops index) = some op →
        (define {} op.id).write op [] ≠ [] →
        op.id.keyword <+: ofNames {} ops index ∧ ¬Grounded ops index :=
  ⟨grounded_of_not_hidesStage, fun _ => ofNames_of_hidesStage⟩

/-- A word behind a word that is switched off, and a `limit` in its place. -/
theorem grounded_word_not_limit :
    let word : Text → Bool → Operation := fun t disabled =>
      { id := .word, params := [.text "_msg", .text t, .flag false, .flag false], disabled }
    let limit : Operation := { id := .limit, params := [.int 10] }
    let behind : List Operation := [word "a" true, word "b" false, limit]
    let hidden : List Operation := [word "a" true, limit, word "b" false]
    (¬HidesStage behind none ∧ Grounded behind none) ∧
      (HidesStage hidden none ∧ firstEnabled? (preceding hidden none) = some limit ∧
        (define {} limit.id).write limit [] ≠ []) ∧
      limit.id.keyword <+: ofNames {} hidden none ∧ ¬Grounded hidden none := by
  intro word limit behind hidden
  have plain : ¬HidesStage behind none := by
    rintro ⟨-, op, first, stage⟩
    have same : some (word "b" false) = some op := first
    cases same
    cases stage
  have first : firstEnabled? (preceding hidden none) = some limit := rfl
  have hides : HidesStage hidden none := ⟨⟨word "a" true, rfl, rfl, rfl⟩, limit, first, rfl⟩
  have written : (define {} limit.id).write limit [] ≠ [] := by decide
  exact ⟨⟨plain, (grounded_unless_hidesStage behind none).1 plain⟩, ⟨hides, first, written⟩,
    (grounded_unless_hidesStage hidden none).2 limit hides first written⟩

/-- A filter that is switched off hides the `limit` behind it. -/
theorem not_grounded_limit :
    let ops : List Operation :=
      [{ id := .word, params := [.text "_msg", .text "error", .flag false, .flag false]
         disabled := true },
        { id := .limit, params := [.int 10] }]
    ofNames {} ops none = ("limit 10" : Text) ∧ ¬Grounded ops none := by
  intro ops
  have scope : ofNames {} ops none = ("limit 10" : Text) := rfl
  have first : firstEnabled? (preceding ops none) = some { id := .limit, params := [.int 10] } :=
    rfl
  have hides : HidesStage ops none := ⟨⟨_, rfl, rfl, rfl⟩, _, first, rfl⟩
  exact ⟨scope, (ofNames_of_hidesStage hides first (by decide)).2⟩

end SuggestScope

end LogQuery
