import LogQuery.Proofs.Query.Written
import LogQuery.Proofs.Text.Visible

/-!
# Labels and what follows them

Between the labels and the operations of a query stands a connective, a space or a bar. Which of
them it is goes by the category of the first operation that is written. Whether an operation may
stand among filters goes by its category and by its id: two operations of the special category
may. These two are put behind a bar, as a pipe would be, and so become a stage of their own; all
other operations that may stand among filters are joined to the labels.

Nothing is put in where one of the sides is empty. Labels never are, as each has a sign that can
be seen and writing takes nothing back that can be seen.
-/

namespace LogQuery

open Text (isBlank)

/-! ### Writing after a text -/

section After

variable {inner t u : Text}

theorem prefix_unless_empty (h : inner <+: u) : inner <+: if inner.isEmpty then t else u := by
  split
  · next nothing => exact List.isEmpty_iff.mp nothing ▸ List.nil_prefix
  · exact h

theorem prefix_afterFilter (inner expr : Text) : inner <+: afterFilter inner expr :=
  prefix_unless_empty ⟨_, (List.append_assoc _ _ _).symm⟩

theorem prefix_afterPipe (inner expr : Text) : inner <+: afterPipe inner expr :=
  prefix_unless_empty ⟨_, (List.append_assoc _ _ _).symm⟩

theorem prefix_afterSpace (inner expr : Text) : inner <+: afterSpace inner expr :=
  prefix_unless_empty (List.prefix_append _ _)

theorem mem_afterFilter {c : Char} {expr : Text} (h : c ∈ expr) : c ∈ afterFilter inner expr := by
  rw [afterFilter]
  split
  · exact h
  · exact List.mem_append_right _ h

theorem mem_afterSpace {c : Char} {expr : Text} (h : c ∈ expr) : c ∈ afterSpace inner expr := by
  rw [afterSpace]
  split
  · exact h
  · exact List.mem_append_right _ (List.mem_cons_of_mem _ h)

theorem Stats.prefix_afterFunction (inner expr : Text) : inner <+: afterFunction inner expr :=
  prefix_unless_empty ⟨_, (List.append_assoc _ _ _).symm⟩

theorem Stats.Call.prefix_write (s : Scope) (op : Operation) (inner : Text) :
    inner <+: write s op inner := by
  rw [write]
  split
  · exact prefix_afterFunction inner _
  · exact prefix_afterFunction inner _

theorem Pipe.Mapping.prefix_write (op : Operation) (inner : Text) : inner <+: write op inner := by
  unfold write
  dsimp only
  split
  · exact List.prefix_rfl
  · exact prefix_afterPipe inner _

/-- Every operation is written behind the text before it. -/
theorem Definition.prefix_write (s : Scope) (id : OperationId) (op : Operation) (inner : Text) :
    inner <+: (define s id).write op inner := by
  cases id
  all_goals first
    | exact prefix_afterFilter inner _
    | exact prefix_afterPipe inner _
    | exact prefix_afterSpace inner _
    | exact Stats.prefix_afterFunction inner _
    | exact Stats.Call.prefix_write s op inner
    | exact Pipe.Mapping.prefix_write op inner

end After

namespace Writer

variable {w : Writer} {st : State} {op : Operation} {ops : List Operation} {c : Char}

/-- A property of the text so far that is kept while more of a query is written: it outlives spaces
dropped at the end and whatever is put behind them. -/
structure Lasts (P : Text → Prop) : Prop where
  dropped {t : Text} (h : P t) : P (dropSpaces t)
  followed {t u : Text} (h : P t) (start : t <+: u) : P u

theorem mem_joinSpace_right {right : Text} (left : Text) (h : c ∈ right) :
    c ∈ joinSpace left right := by
  rw [joinSpace]
  split
  · exact List.mem_append_right _ h
  · exact List.mem_append_right _ (List.mem_cons_of_mem _ h)

/-- How a definition may put an operation behind a text: behind a space, a bar, or as it is
written there. -/
theorem append_cases (st : State) (d : Definition) (op : Operation) :
    (append st d op).out = joinSpace st.out (d.write op []) ∨
      (append st d op).out = dropSpaces st.out ++ " | " ++ d.write op [] ∨
      (append st d op).out = d.write op (dropSpaces st.out) := by
  rw [append]
  dsimp only
  split_ifs
  · exact .inl rfl
  · exact .inl rfl
  · exact .inr (.inl rfl)
  · exact .inl rfl
  · exact .inr (.inr rfl)

namespace Lasts

variable {P : Text → Prop}

theorem joined (lasts : Lasts P) {left : Text} (h : P left) (right : Text) :
    P (joinSpace left right) := by
  rw [joinSpace]
  split
  · exact lasts.followed h (List.prefix_append _ _)
  · exact lasts.followed (lasts.dropped h) (List.prefix_append _ _)

theorem step (lasts : Lasts P) (hw : w.categories = Category.all) (h : P st.out) :
    P (w.step st op).out := by
  cases disabled : op.disabled with
  | true => rwa [Writer.step, if_pos disabled]
  | false =>
      rw [step_enabled hw disabled]
      rcases append_cases st (define w.scope op.id) op with written | written | written
      · rw [written]
        exact lasts.joined h _
      · rw [written, List.append_assoc]
        exact lasts.followed (lasts.dropped h) (List.prefix_append _ _)
      · rw [written]
        exact lasts.followed (lasts.dropped h) (Definition.prefix_write w.scope op.id op _)

theorem foldl (lasts : Lasts P) (hw : w.categories = Category.all) (h : P st.out) :
    P (ops.foldl w.step st).out := by
  induction ops generalizing st with
  | nil => exact h
  | cons op ops ih => exact ih (lasts.step hw h)

end Lasts

/-- A character other than a space is never taken back. -/
theorem lasts_mem (hc : c ≠ ' ') : Lasts fun t => c ∈ t where
  dropped {t} h := by
    rw [dropSpaces, Text.dropEndWhile, List.mem_reverse]
    have inside := List.mem_reverse.mpr h
    rw [← List.takeWhile_append_dropWhile (p := (· == ' ')) (l := t.reverse)] at inside
    rcases List.mem_append.mp inside with space | kept
    · exact absurd (by simpa using List.mem_takeWhile_imp space) hc
    · exact kept
  followed h start := start.subset h

/-- An operation is written with every character that it has wherever it stands. -/
theorem mem_step_of_write (hw : w.categories = Category.all) (enabled : op.disabled = false)
    (h : ∀ inner, c ∈ (define w.scope op.id).write op inner) : c ∈ (w.step st op).out := by
  rw [step_enabled hw enabled]
  rcases append_cases st (define w.scope op.id) op with written | written | written
  · rw [written]
    exact mem_joinSpace_right _ (h [])
  · rw [written]
    exact List.mem_append_right _ (h [])
  · rw [written]
    exact h _

theorem mem_writeOperations (hw : w.categories = Category.all) (hop : op ∈ ops)
    (enabled : op.disabled = false) (hc : isBlank c = false)
    (h : ∀ inner, c ∈ (define w.scope op.id).write op inner) : c ∈ w.writeOperations ops := by
  have notSpace : c ≠ ' ' := by
    rintro rfl
    exact absurd hc (by decide)
  obtain ⟨before, after, rfl⟩ := List.append_of_mem hop
  refine Text.mem_trim ?_ hc
  rw [List.foldl_append, List.foldl_cons]
  exact (lasts_mem notSpace).foldl hw (mem_step_of_write hw enabled h)

/-! ### The two sides -/

/-- The filter of a label has its sign. -/
theorem writeLabels_ne_nil (hw : w.categories = Category.all) {labels : List LabelFilter}
    (hne : labels ≠ []) : w.writeLabels labels ≠ [] := by
  obtain ⟨l, hl⟩ := List.exists_mem_of_ne_nil labels hne
  have listed : l.toOperation ∈ labels.flatMap LabelFilter.toOperations := by
    refine List.mem_flatMap.mpr ⟨l, hl, ?_⟩
    rw [LabelFilter.toOperations]
    split <;> simp
  have sign : ∃ c, isBlank c = false ∧
      ∀ inner, c ∈ (define w.scope l.toOperation.id).write l.toOperation inner := by
    rw [LabelFilter.toOperation]
    split
    · exact ⟨'~', by decide, fun inner => mem_afterFilter (by simp)⟩
    · exact ⟨'=', by decide, fun inner => mem_afterFilter (by
        split <;> simp)⟩
  have enabled : l.toOperation.disabled = false := by
    rw [LabelFilter.toOperation]
    split <;> rfl
  obtain ⟨c, visible, written⟩ := sign
  exact List.ne_nil_of_mem (mem_writeOperations hw listed enabled visible written)

/-- The two special operations among filters have a bracket. -/
theorem mem_write_special (s : Scope) (h : op.id ∈ [.containsAnyFromVariable, .options])
    (inner : Text) : '(' ∈ (define s op.id).write op inner := by
  have named : '(' ∈ Special.Variable.write s op inner :=
    mem_afterSpace (List.mem_append_left _ (List.mem_append_left _
      (List.mem_append_right _ (by decide))))
  have options : '(' ∈ Special.Options.write op inner :=
    mem_afterSpace (List.mem_append_left _ (List.mem_append_left _ (by decide)))
  simp only [List.mem_cons, List.not_mem_nil, or_false] at h
  rcases h with id | id
  · rw [id]
    exact named
  · rw [id]
    exact options

/-! ### Between the sides -/

/-- What stands between two sides: nothing where the second one is empty. -/
def joint (w : Writer) (q : Query) : Text :=
  if (w.writeOperations q.operations).isEmpty then []
  else w.labelJoint (q.operations.find? fun op => !op.disabled)

theorem write_eq_joint (hw : w.categories = Category.all) {q : Query} (hne : q.labels ≠ []) :
    w.write q = w.writeLabels q.labels ++ w.joint q ++ w.writeOperations q.operations := by
  have labelled : (w.writeLabels q.labels).isEmpty = false := by
    simpa using writeLabels_ne_nil hw hne
  rw [write, joint, labelled, if_neg Bool.false_ne_true]
  split
  · next nothing => simp [List.isEmpty_iff.mp nothing]
  · rfl

theorem bar_mem_labelJoint_iff (hw : w.categories = Category.all)
    (like : (define w.scope op.id).isFilterLike = true) :
    '|' ∈ w.labelJoint (some op) ↔ op.id ∈ [.containsAnyFromVariable, .options] := by
  rw [labelJoint, Option.bind_some, definition?_eq hw]
  dsimp only
  rw [define_id]
  rw [Definition.isFilterLike, define_id] at like
  generalize op.id = id at like ⊢
  cases id <;> first | contradiction | decide

/-- Of the operations that may stand among filters, exactly the two special ones are cut off from
the labels by a bar when they come first. -/
theorem write_eq_labels_joint (hw : w.categories = Category.all) {q : Query} (hne : q.labels ≠ [])
    (first : q.operations.find? (fun op => !op.disabled) = some op)
    (like : (define w.scope op.id).isFilterLike = true) :
    w.write q = w.writeLabels q.labels ++ w.joint q ++ w.writeOperations q.operations ∧
      ('|' ∈ w.joint q ↔ op.id ∈ [.containsAnyFromVariable, .options]) := by
  refine ⟨write_eq_joint hw hne, ?_⟩
  rw [joint, first]
  split
  · next nothing =>
    -- of the two operations a bracket is seen, so the second side is not empty
    refine iff_of_false List.not_mem_nil fun special => ?_
    have enabled : op.disabled = false := by simpa using List.find?_some first
    have bracket := mem_writeOperations hw (List.mem_of_find?_eq_some first) enabled (by decide)
      (mem_write_special w.scope special)
    rw [List.isEmpty_iff.mp nothing] at bracket
    exact absurd bracket List.not_mem_nil
  · exact bar_mem_labelJoint_iff hw like

/-- A pipe that is switched off is passed over: the labels are joined to the `not` behind it. -/
theorem write_labels_not :
    let q : Query :=
      { labels := [{ label := "app", op := "!~", value := "a+" }]
        operations :=
          [{ id := .uniq, params := [], disabled := true }, .marker .not,
            { id := .word, params := [.text "_msg", .text "b", .flag false, .flag false] }] }
    write {} q = writeLabels {} q.labels ++ joint {} q ++ writeOperations {} q.operations ∧
      ('|' ∈ joint {} q ↔ OperationId.not ∈ [OperationId.containsAnyFromVariable, .options]) := by
  intro q
  have first : q.operations.find? (fun op => !op.disabled) = some (.marker .not) := rfl
  exact write_eq_labels_joint rfl (List.cons_ne_nil _ _) first rfl

/-- A filter of a variable is joined to the filter before it by a space, and to labels by a bar. -/
theorem write_labels_variable :
    let op : Operation := { id := .containsAnyFromVariable, params := [.text "_msg", .text "$v"] }
    let q : Query :=
      { labels := [{ label := "app", op := "=", value := "nginx" }], operations := [op] }
    (define {} op.id).isFilterLike = true ∧
      writeLabels {} q.labels = ("app:=nginx" : Text) ∧
      writeOperations {} q.operations = ("($v)" : Text) ∧
      write {} q = ("app:=nginx | ($v)" : Text) ∧
      writeOperations {} (q.labels.flatMap LabelFilter.toOperations ++ q.operations) =
        ("app:=nginx ($v)" : Text) := by
  exact ⟨by decide, rfl, rfl, rfl, rfl⟩

end Writer

end LogQuery
