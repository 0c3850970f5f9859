import LogQuery.Proofs.Operation.Layout
import LogQuery.Proofs.Token.Outcome

/-!
# What pipes are read as fits their layout

Clauses may come in any order and number, and each of them changes only the value of its own
parameter. So the list that a pipe is read as has the same length and kinds whatever clauses
stand behind the keyword.
-/

namespace LogQuery

open Definition (Fits)

namespace Pipe

variable (s : Scope) (id : OperationId)

theorem fits_bare : (bare id).Fits [] := .of_accepts rfl

/-! ### Fields -/

theorem Selection.fits_read : Selection.read.Ensures (Selection.definition id).Fits :=
  .step fun _ => .pure (.of_accepts rfl)

theorem fits_texts_or_empty {d : Definition} (repeats : d.isOpen = true)
    (layout : ∀ i, (ParamSpec.at? d.params i).map ParamSpec.kind = some .string)
    (one : d.defaults.length = 1) (ts : List Text) :
    d.Fits (if ts.isEmpty then [.empty] else ts.map .text) := by
  split
  · exact .of_texts repeats layout (by simp [one]) (by simp [Param.kind, Param.empty])
  · next some =>
    refine .of_texts repeats layout ?_ (by simp [Param.kind])
    rw [one, List.length_map]
    exact List.length_pos_iff.mpr (by simpa using some)

theorem Mapping.fits_read_copy : (Mapping.read s).Ensures (Mapping.copy s).Fits :=
  .step fun mappings => .pure (fits_texts_or_empty rfl (fun i => by cases i <;> rfl) rfl mappings)

theorem Mapping.fits_read_rename : (Mapping.read s).Ensures (Mapping.rename s).Fits :=
  .step fun mappings => .pure (fits_texts_or_empty rfl (fun i => by cases i <;> rfl) rfl mappings)

theorem Decolorize.fits_read :
    ((Decolorize.definition s).read none).Ensures (Decolorize.definition s).Fits :=
  .step fun _ => .pure (.of_accepts rfl)

/-! ### Values -/

theorem Extract.fits_read : (Extract.read s).Ensures (Extract.definition s id).Fits := by
  refine .step fun condition => .step fun t => ?_
  split
  · refine .step fun _ => .step fun _ => .ite ?_ ?_
    · exact .step fun _ => .step fun _ => .pure (.of_accepts rfl)
    · exact .step fun _ => .step fun _ => .pure (.of_accepts rfl)
  · exact .pure (.of_accepts rfl)

theorem Format.fits_read : (Format.read s).Ensures (Format.definition s).Fits := by
  refine .step fun condition => .step fun t => ?_
  split
  · refine .step fun _ => .step fun _ => .ite ?_ ?_
    · exact .step fun _ => .pure (.of_accepts rfl)
    · exact .step fun _ => .pure (.of_accepts rfl)
  · exact .pure (.of_accepts rfl)

theorem CollapseNums.fits_read : (CollapseNums.read s).Ensures (CollapseNums.definition s).Fits :=
  .step fun _ => .step fun _ => .pure (.of_accepts rfl)

theorem Replace.fits_read : (Replace.read s).Ensures (Replace.definition s id).Fits := by
  refine .step fun condition => .step fun b => ?_
  split
  · exact .pure (.of_accepts rfl)
  · exact .step fun _ => .pure (.of_accepts rfl)

theorem Measure.fits_read : (Measure.read s).Ensures (Measure.definition s id).Fits := by
  refine .step fun b => ?_
  split
  · exact .pure (.of_accepts rfl)
  · refine .step fun _ => .ite ?_ ?_
    · exact .step fun _ => .pure (.of_accepts rfl)
    · exact .step fun _ => .pure (.of_accepts rfl)

theorem Math.fits_read : (Math.read s).Ensures (Math.definition s).Fits :=
  .step fun entries => .pure (fits_texts_or_empty rfl (fun i => by cases i <;> rfl) rfl entries)

theorem Pack.fits_read : (Pack.read s).Ensures (Pack.definition s id).Fits :=
  .step fun _ => .pure (.of_accepts rfl)

theorem TimeAdd.fits_read : (TimeAdd.read s).Ensures (TimeAdd.definition s).Fits := by
  refine .step fun duration => .step fun _ => .ite ?_ ?_
  · exact .step fun _ => .pure (.of_accepts rfl)
  · exact .step fun _ => .pure (.of_accepts rfl)

/-! ### Counts and subqueries -/

theorem Count.fits_read (name : Text) (default : Int) :
    (Count.read s default).Ensures (Count.definition s id name default).Fits := by
  refine .step fun t => ?_
  split
  · refine .ite ?_ ?_
    · exact .step fun _ => .pure (.of_accepts rfl)
    · exact .pure (.of_accepts rfl)
  · exact .pure (.of_accepts rfl)

theorem Join.fits_read : (Join.read s).Ensures (Join.definition s).Fits :=
  .step fun _ => .step fun _ => .step fun _ => .pure (.of_accepts rfl)

theorem Union.fits_read : Union.read.Ensures Union.definition.Fits :=
  .step fun _ => .pure (.of_accepts rfl)

/-! ### Order and groups -/

theorem Facets.fits_read : (Facets.read s).Ensures (Facets.definition s).Fits :=
  .step fun _ => .step fun _ => .pure (.of_accepts rfl)

theorem FieldValues.fits_read : (FieldValues.read s).Ensures (FieldValues.definition s).Fits := by
  refine .step fun field => .step fun _ => .ite ?_ ?_
  · exact .step fun _ => .pure (.of_accepts rfl)
  · exact .step fun _ => .pure (.of_accepts rfl)

theorem FirstLast.fits_read (limit : Int) :
    (FirstLast.read s).Ensures (FirstLast.definition s id limit).Fits := by
  refine .step fun limit => .step fun fields => .step fun desc => .step fun _ => .ite ?_ ?_
  · exact .step fun _ => .pure (.of_accepts rfl)
  · exact .step fun _ => .pure (.of_accepts rfl)

theorem SortBy.fits_read : SortBy.read.Ensures SortBy.definition.Fits := by
  refine .step fun b => ?_
  split
  · exact .pure (.of_accepts rfl)
  · exact .step fun _ => .pure (.of_accepts rfl)

theorem Stats.fits_read : Stats.read.Ensures Stats.definition.Fits :=
  .step fun _ => .step fun _ => .pure (.of_accepts rfl)

theorem Top.fits_read : (Top.read s).Ensures (Top.definition s).Fits :=
  .step fun _ => .step fun _ => .step fun _ => .pure (.of_accepts rfl)

theorem Uniq.fits_read : (Uniq.read s).Ensures (Uniq.definition s).Fits :=
  .step fun _ => .step fun _ => .pure (.of_accepts rfl)

theorem StreamContext.fits_read :
    (StreamContext.read s).Ensures (StreamContext.definition s).Fits :=
  .step fun _ => .pure (.of_accepts rfl)

/-! ### Unpacking -/

/-- The parameters behind the common ones differ from format to format, in the layout and in
what is read alike. -/
theorem Unpack.fits_read :
    (Unpack.read s (hasOffset id)).Ensures (Unpack.definition s id).Fits := by
  refine .step fun condition => .step fun c => .pure ?_
  cases id <;> exact .of_accepts rfl

theorem UnpackWords.fits_read : (UnpackWords.read s).Ensures (UnpackWords.definition s).Fits :=
  .step fun _ => .pure (.of_accepts rfl)

theorem Unroll.fits_read : Unroll.read.Ensures Unroll.definition.Fits :=
  .step fun _ => .step fun _ => .pure (.of_accepts rfl)

end Pipe

end LogQuery
