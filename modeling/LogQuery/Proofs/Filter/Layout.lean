import LogQuery.Proofs.Operation.Layout
import LogQuery.Proofs.Token.Outcome

/-!
# What filters are read as fits their layout

The reader of each filter ends in a list of parameters whose length and kinds can be seen from
the reader itself; which values they hold is left to the tokens. The operations that are neither
filters nor pipes are read in the same way.
-/

namespace LogQuery

open Definition (Fits)

namespace Filter

variable (s : Scope) (field : Option Text)

theorem Word.fits_read : (Word.read s field).Ensures (Word.definition s).Fits :=
  .step fun _ => .step fun _ => .pure (.of_accepts rfl)

theorem Substring.fits_read : (Substring.read s field).Ensures (Substring.definition s).Fits := by
  refine .step fun t => ?_
  split
  · exact .pure (.of_accepts rfl)
  · refine .step fun _ => .ite ?_ ?_
    · exact .step fun _ => .step fun _ => .pure (.of_accepts rfl)
    · exact .pure (.of_accepts rfl)

theorem Time.fits_read : (Time.read s).Ensures (Time.definition s).Fits :=
  .step fun _ => .step fun _ => .step fun _ => .pure (.of_accepts rfl)

/-- The bounds and the offset of a day or week range stand at the same positions. -/
theorem TimeRange.fits_read (day : Text → Text) :
    (TimeRange.read s day field).Ensures (TimeRange.dayRange s).Fits :=
  .step fun _ => .step fun _ => .pure (.of_accepts rfl)

theorem TimeRange.fits_weekRange {ps : List Param} (h : (TimeRange.dayRange s).Fits ps) :
    (TimeRange.weekRange s).Fits ps := ⟨h.count, h.kinds⟩

theorem Stream.fits_read : Stream.read.Ensures Stream.definition.Fits := by
  refine .step fun t => ?_
  split
  · exact .pure (.of_accepts rfl)
  · next b heq =>
    refine .step fun _ => .pure ?_
    split
    · exact .of_accepts rfl
    · next some =>
      refine .of_texts rfl (fun i => by cases i <;> rfl) ?_ (by simp [Param.kind])
      have nonempty : Stream.selectors b.inner ≠ [] := by
        intro none
        exact some (by rw [none]; rfl)
      exact List.length_pos_iff.mpr (by simpa using nonempty)

theorem StreamId.fits_read : (StreamId.read s).Ensures (StreamId.definition s).Fits := by
  refine .step fun t => ?_
  split
  · exact .step fun _ => .pure (.of_accepts rfl)
  · exact .step fun _ => .pure (.of_accepts rfl)

theorem Regexp.fits_read : (Regexp.read s field).Ensures (Regexp.definition s).Fits :=
  .step fun _ => .pure (.of_accepts rfl)

theorem RangeComparison.fits_read :
    (RangeComparison.read s field).Ensures (RangeComparison.definition s).Fits := by
  refine .step fun t => ?_
  split
  · exact .pure (.of_accepts rfl)
  · refine .step fun _ => .ite ?_ ?_
    · exact .step fun _ => .step fun _ => .pure (.of_accepts rfl)
    · exact .pure (.of_accepts rfl)

theorem Exact.fits_read : (Exact.read s field).Ensures (Exact.definition s).Fits :=
  .step fun _ => .step fun _ => .step fun _ => .pure (.of_accepts rfl)

theorem MultiExact.fits_read : (MultiExact.read s field).Ensures (MultiExact.definition s).Fits :=
  .step fun _ => .pure (.of_accepts rfl)

theorem Contains.fits_read (id : OperationId) :
    (Contains.read s field).Ensures (Contains.definition s id).Fits :=
  .step fun _ => .pure (.of_accepts rfl)

theorem Sequence.fits_read : (Sequence.read s field).Ensures (Sequence.definition s).Fits := by
  refine .step fun phrases => .pure ?_
  split
  · exact .of_accepts rfl
  · next some =>
    refine .of_texts rfl (fun i => by rcases i with _ | _ | i <;> rfl) ?_ (by
      simp [Param.kind, Scope.fieldParam])
    have nonempty : phrases ≠ [] := by simpa using some
    exact Nat.succ_le_succ (List.length_pos_iff.mpr (by simpa using nonempty))

/-- A bound is a text or zero. -/
theorem Range.fits_read : (Range.read s field).Ensures (Range.definition s).Fits := by
  refine .step fun t => ?_
  split
  · exact .pure (.of_accepts rfl)
  · refine .pure ?_
    split
    · exact .of_accepts rfl
    · exact .of_accepts rfl

theorem Pair.fits_read_ipv4Range : (Pair.read s field).Ensures (Pair.ipv4Range s).Fits :=
  .step fun _ => .pure (.of_accepts rfl)

theorem Pair.fits_read_stringRange : (Pair.read s field).Ensures (Pair.stringRange s).Fits :=
  .step fun _ => .pure (.of_accepts rfl)

theorem Pair.fits_read_lenRange : (Pair.read s field).Ensures (Pair.lenRange s).Fits :=
  .step fun _ => .pure (.of_accepts rfl)

theorem Single.fits_read (id : OperationId) (name : Text) :
    (Single.read s field).Ensures (Single.definition s id name).Fits :=
  .step fun _ => .pure (.of_accepts rfl)

theorem Single.fits_read_patternMatch :
    (Single.read s field).Ensures (Single.patternMatch s).Fits :=
  .step fun _ => .pure (.of_accepts rfl)

theorem Logical.fits_read : (Logical.read s field).Ensures (Logical.definition s).Fits := by
  refine .step fun t => ?_
  split
  · exact .step fun _ => .pure (.of_accepts rfl)
  · exact .pure (.of_accepts rfl)

end Filter

namespace Special

variable (s : Scope) (field : Option Text)

theorem Options.fits_read : (Options.read s).Ensures (Options.definition s).Fits := by
  refine .step fun t => ?_
  split
  · refine .ite ?_ ?_
    · exact .step fun _ => .pure (.of_accepts rfl)
    · exact .pure (.of_accepts rfl)
  · exact .pure (.of_accepts rfl)

theorem Variable.fits_read : (Variable.read s field).Ensures (Variable.definition s).Fits := by
  refine .step fun t => ?_
  split
  · exact .step fun _ => .pure (.of_accepts rfl)
  · exact .pure (.of_accepts rfl)

theorem Comment.fits_read : Comment.read.Ensures Comment.definition.Fits := by
  refine .step fun t => ?_
  split
  · exact .step fun _ => .pure (.of_accepts rfl)
  · exact .pure (.of_accepts rfl)

end Special

end LogQuery
