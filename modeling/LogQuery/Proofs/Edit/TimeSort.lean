import LogQuery.Edit.TimeSort

/-!
# Sorting by time is added once

A sort by time is recognised by a search from every bar of the text, and what a bar opens does not
depend on the text in front of it. So the sort that an edit puts at the end of a query is found
whatever the query leaves open: quotes, brackets, or a sort that was never finished. A query that
has been given a sort is therefore never given another one.
-/

namespace LogQuery.TimeSort

/-- A sort by time stands behind one of the bars. -/
theorem isIn_iff {t : Text} : isIn t = true ↔
    ∃ before after fields, t = before ++ '|' :: after ∧ afterOpening? after = some fields ∧
      namesTime fields = true := by
  induction t with
  | nil => simp [isIn]
  | cons c cs ih =>
      rw [isIn, Bool.or_eq_true, Bool.and_eq_true, beq_iff_eq, Option.any_eq_true, ih]
      constructor
      · rintro (⟨rfl, fields, opens, names⟩ | ⟨before, after, fields, rfl, opens, names⟩)
        · exact ⟨[], cs, fields, rfl, opens, names⟩
        · exact ⟨c :: before, after, fields, rfl, opens, names⟩
      · rintro ⟨before, after, fields, split, opens, names⟩
        cases before with
        | nil =>
            obtain ⟨rfl, rfl⟩ := List.cons.inj split
            exact .inl ⟨rfl, fields, opens, names⟩
        | cons d before =>
            obtain ⟨-, rfl⟩ := List.cons.inj split
            exact .inr ⟨before, after, fields, rfl, opens, names⟩

/-- What stands in front of a sort by time does not hide it. -/
theorem isIn_append (t : Text) {u : Text} (h : isIn u = true) : isIn (t ++ u) = true := by
  obtain ⟨before, after, fields, rfl, opens, names⟩ := isIn_iff.mp h
  apply isIn_iff.mpr
  exact ⟨t ++ before, after, fields, by rw [List.append_assoc], opens, names⟩

theorem isIn_written (direction : SortDirection) :
    isIn (" | sort by (_time) " ++ direction.text) = true := by
  cases direction with
  | asc => decide
  | desc => decide

theorem isIn_add (direction : SortDirection) (query : Text) : isIn (add direction query) = true := by
  rw [add]
  split
  · next found => exact found
  · rw [List.append_assoc]
    exact isIn_append _ (isIn_written direction)

theorem add_of_isIn {query : Text} (h : isIn query = true) (direction : SortDirection) :
    add direction query = query := by
  rw [add, if_pos h]

/-- An edited query sorts by time, and a second edit leaves it as it is, in whatever direction
either of them asks for. -/
theorem isIn_add_and_add_add (query : Text) (d₁ d₂ : SortDirection) :
    isIn (add d₁ query) = true ∧ add d₂ (add d₁ query) = add d₁ query := by
  have found := isIn_add d₁ query
  constructor
  · exact found
  · exact add_of_isIn found d₂

/-- Behind an open quote and a sort without an end. -/
example : isIn (add .desc "'a | sort by (b") = true := by decide

end LogQuery.TimeSort
