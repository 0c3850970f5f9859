import LogQuery.Proofs.Filter.Layout
import LogQuery.Proofs.Pipe.Layout
import LogQuery.Proofs.Query.Origin
import LogQuery.Proofs.Stats.Function

/-!
# Operations are read well-typed

Whatever a query text holds, each operation that is read from it has the parameters that its
definition declares. The reader of every definition builds a fitting list on its own, with one
exception: the functions of a list of fields share a reader that goes by the name at the front
of the tokens. They are read only where that name has been seen, so name and function agree.
Every other path of the query reader chooses an id that is no stats function.
-/

namespace LogQuery

open Definition (Fits)
open Reader (Ensures)

namespace Stats

variable (s : Scope) {id : OperationId} {ts : List Token}

theorem Quantile.fits_read : (Quantile.read s).Ensures (Quantile.definition s).Fits :=
  .step fun _ => .step fun _ => .pure (.of_accepts rfl)

theorem Rate.fits_read : (Rate.read s).Ensures (Rate.definition s).Fits :=
  .step fun _ => .step fun _ => .pure (.of_accepts rfl)

/-- Behind the name of a function with a limit, a limit is read. -/
theorem Call.fits_read_withLimit (h : startsLimited ts = true) :
    (Call.withLimit s id).Fits ((Call.read s).run ts).1 := by
  rw [Call.read, Reader.run_bind, Reader.run_look, if_pos h]
  have fits : ∀ fields limit (tail : Tail), (Call.withLimit s id).Fits
      [.text fields, .number limit, .text tail.result, .text tail.condition] :=
    fun _ _ _ => .of_accepts rfl
  refine (Ensures.step fun call => .step fun limited => .ite ?_ ?_ :
    Ensures _ (Call.withLimit s id).Fits) ts
  · exact .step fun _ => .step fun _ => .pure (fits _ _ _)
  · exact .step fun _ => .step fun _ => .pure (fits _ _ _)

theorem Call.fits_read_definition (h : startsLimited ts = false) :
    (Call.definition s id).Fits ((Call.read s).run ts).1 := by
  rw [Call.read, Reader.run_bind, Reader.run_look, if_neg (by simp [h])]
  exact (Ensures.step fun call => .step fun tail => .pure (.of_accepts rfl) :
    Ensures _ (Call.definition s id).Fits) ts

theorem statsFunction?_eq_some {name : Text} (h : OperationId.statsFunction? name = some id) :
    id.category = .stats ∧ id.keyword = name.lower := by
  rw [OperationId.statsFunction?, OperationId.named?] at h
  have listed : id ∈ OperationId.ofCategory .stats := List.mem_of_find?_eq_some h
  exact ⟨by simpa using (List.mem_filter.mp listed).2, by simpa using List.find?_some h⟩

/-- The reader of a function goes by the name that the function was chosen by. -/
theorem exists_name (h : ts.head?.bind Query.statsName? = some id) :
    ∃ name, OperationId.statsFunction? name = some id ∧
      Call.startsLimited ts = limited.any fun other => other.keyword == name.lower := by
  rcases ts with _ | ⟨t, ts⟩
  · contradiction
  · cases t with
    | word name => exact ⟨name, h, rfl⟩
    | bracket name raw items => exact ⟨name, h, rfl⟩
    | field _ | quote _ | comment _ => contradiction

/-- What a token in front names is a stats function and nothing else. -/
theorem ne_of_named {other : OperationId} (h : ts.head?.bind Query.statsName? = some id)
    (hother : other.category ≠ .stats) : id ≠ other := by
  obtain ⟨name, named, -⟩ := exists_name h
  rintro rfl
  exact hother (statsFunction?_eq_some named).1

theorem limited_any_keyword (id : OperationId) :
    (limited.any fun other => other.keyword == id.keyword) = decide (id ∈ limited) := by
  cases id <;> rfl

/-- A stats function is read as fits its definition where the tokens start with its name. -/
theorem fits_read_of_named (s : Scope) (h : ts.head?.bind Query.statsName? = some id) :
    (define s id).Fits (((define s id).read none).run ts).1 := by
  obtain ⟨name, named, front⟩ := exists_name h
  obtain ⟨category, keyword⟩ := statsFunction?_eq_some named
  have starts : Call.startsLimited ts = decide (id ∈ limited) := by
    rw [front, ← keyword, limited_any_keyword]
  by_cases isLimited : id ∈ limited
  · rw [define_limited isLimited]
    exact Call.fits_read_withLimit s (by rw [starts, decide_eq_true isLimited])
  · by_cases isQuantile : id = .quantile
    · subst isQuantile
      exact Quantile.fits_read s ts
    · by_cases isRate : id = .rate
      · subst isRate
        exact Rate.fits_read s ts
      · rw [define_plain ⟨category, isLimited, isQuantile, isRate⟩]
        exact Call.fits_read_definition s (by rw [starts, decide_eq_false isLimited])

end Stats

/-- Every operation but a stats function is read as fits its definition, whatever the tokens. -/
theorem Definition.fits_read (s : Scope) {id : OperationId} (h : id.category ≠ .stats)
    (field : Option Text) : ((define s id).read field).Ensures (define s id).Fits := by
  cases id with
  | word => exact Filter.Word.fits_read s field
  | time => exact Filter.Time.fits_read s
  | dayRange => exact Filter.TimeRange.fits_read s field _
  | weekRange =>
      exact (Filter.TimeRange.fits_read s field _).mono fun _ => Filter.TimeRange.fits_weekRange s
  | stream => exact Filter.Stream.fits_read
  | streamId => exact Filter.StreamId.fits_read s
  | regexp => exact Filter.Regexp.fits_read s field
  | rangeComparison => exact Filter.RangeComparison.fits_read s field
  | exact => exact Filter.Exact.fits_read s field
  | multiExact => exact Filter.MultiExact.fits_read s field
  | containsAll | containsAny => exact Filter.Contains.fits_read s field _
  | sequence => exact Filter.Sequence.fits_read s field
  | range => exact Filter.Range.fits_read s field
  | ipv4Range => exact Filter.Pair.fits_read_ipv4Range s field
  | stringRange => exact Filter.Pair.fits_read_stringRange s field
  | lenRange => exact Filter.Pair.fits_read_lenRange s field
  | valueType | eqField | leField | ltField => exact Filter.Single.fits_read s field _ _
  | logical => exact Filter.Logical.fits_read s field
  | substring => exact Filter.Substring.fits_read s field
  | patternMatch => exact Filter.Single.fits_read_patternMatch s field
  | and | or | not => exact .pure (.of_accepts rfl)
  | blockStats | blocksCount | dropEmptyFields | fieldNames => exact .pure (Pipe.fits_bare _)
  | collapseNums => exact Pipe.CollapseNums.fits_read s
  | copy => exact Pipe.Mapping.fits_read_copy s
  | rename => exact Pipe.Mapping.fits_read_rename s
  | decolorize => exact Pipe.Decolorize.fits_read s
  | delete | fields => exact Pipe.Selection.fits_read _
  | extract | extractRegexp => exact Pipe.Extract.fits_read s _
  | facets => exact Pipe.Facets.fits_read s
  | fieldValues => exact Pipe.FieldValues.fits_read s
  | first | last => exact Pipe.FirstLast.fits_read s _ _
  | format => exact Pipe.Format.fits_read s
  | join => exact Pipe.Join.fits_read s
  | jsonArrayLen | hash | len => exact Pipe.Measure.fits_read s _
  | limit | offset | sample => exact Pipe.Count.fits_read s _ _ _
  | math => exact Pipe.Math.fits_read s
  | packJson | packLogfmt => exact Pipe.Pack.fits_read s _
  | replace | replaceRegexp => exact Pipe.Replace.fits_read s _
  | sort => exact Pipe.SortBy.fits_read
  | stats => exact Pipe.Stats.fits_read
  | streamContext => exact Pipe.StreamContext.fits_read s
  | timeAdd => exact Pipe.TimeAdd.fits_read s
  | top => exact Pipe.Top.fits_read s
  | union => exact Pipe.Union.fits_read
  | uniq => exact Pipe.Uniq.fits_read s
  | unpackJson | unpackLogfmt | unpackSyslog => exact Pipe.Unpack.fits_read s _
  | unpackWords => exact Pipe.UnpackWords.fits_read s
  | unroll => exact Pipe.Unroll.fits_read
  | options => exact Special.Options.fits_read s
  | containsAnyFromVariable => exact Special.Variable.fits_read s field
  | comment => exact Special.Comment.fits_read
  | _ => exact absurd rfl h

theorem wellTyped_readOperation {s : Scope} {id : OperationId} {field : Option Text}
    (fits : ((define s id).read field).Ensures (define s id).Fits) :
    (readOperation s id field).Ensures fun op => op.WellTyped s :=
  fits.bind fun _ h => .pure h

namespace Query

/-- All operations of a list are well-typed. -/
def AllWellTyped (s : Scope) (ops : List Operation) : Prop := ∀ op ∈ ops, op.WellTyped s

namespace AllWellTyped

variable {s : Scope} {ops more : List Operation}

theorem nil : AllWellTyped s [] := Every.nil

theorem append (h : AllWellTyped s ops) (hmore : AllWellTyped s more) :
    AllWellTyped s (ops ++ more) := Every.append h hmore

end AllWellTyped

variable {s : Scope} {onlyFilters : Bool} {field : Option Text} {id : OperationId}
  {ts : List Token}

theorem origin_wellTyped (s : Scope) :
    Origin s (fun _ => True) fun op => op.WellTyped s where
  bare _ _ _ _ := trivial
  negation := .of_accepts rfl
  chosen _ field notStats _ := fun ts _ =>
    wellTyped_readOperation (Definition.fits_read s notStats field) ts
  named _ _ _ named := Stats.fits_read_of_named s named

theorem wellTyped_readRuns (s : Scope) (afterConnective : Bool) (runs : List (List Token)) :
    AllWellTyped s (readRuns s afterConnective runs).1 := by
  refine (origin_wellTyped s).readRuns ?_ ?_ afterConnective fun _ _ _ _ _ => trivial
  · intro id known
    simp only [List.mem_cons, List.not_mem_nil, or_false] at known
    rcases known with rfl | rfl | rfl <;> exact .of_accepts rfl
  · intro comment
    exact .of_accepts rfl

theorem wellTyped_liftLabels {ops : List Operation} (h : AllWellTyped s ops) :
    AllWellTyped s (liftLabels ops).2 := by
  unfold liftLabels
  split
  · exact .nil
  · exact h

/-- Whatever text it is read from, every operation of a query has as many parameters as its
definition asks for, each of the kind that is declared for its position. -/
theorem wellTyped_of_mem_read (o : Options) (expr : Text) {op : Operation}
    (h : op ∈ (read o expr).operations) : op.WellTyped o.scope := by
  revert op
  change AllWellTyped o.scope (read o expr).operations
  unfold read
  split
  · exact .nil
  · next first rest _ =>
    dsimp only
    refine .append ?_ (wellTyped_readRuns _ _ _)
    split
    · exact wellTyped_liftLabels (wellTyped_readRuns _ _ _)
    · exact wellTyped_readRuns _ _ _

/-- A bound that is no number, a limit and an offset, read as fits three different layouts. -/
theorem wellTyped_bound_limit_offset :
    let expr : Text := "size:range(1h, 5] | count_uniq(host) limit 3 | unpack_syslog offset 5h"
    let range : Operation :=
      { id := .range, params := [.text "size", .text "1h", .text "5", .flag false, .flag true] }
    let unique : Operation :=
      { id := .countUniq, params := [.text "host", .int 3, .text [], .text []] }
    let unpack : Operation :=
      { id := .unpackSyslog,
        params := [.text "_msg", .text [], .text [], .flag false, .text [], .text "5h"] }
    (read {} expr).operations = [range, unique, unpack] ∧
      range.WellTyped {} ∧ unique.WellTyped {} ∧ unpack.WellTyped {} := by
  intro expr range unique unpack
  have operations : (read {} expr).operations = [range, unique, unpack] := by
    decide
  have typed : ∀ op ∈ [range, unique, unpack], op.WellTyped {} := by
    rw [← operations]
    exact fun op => wellTyped_of_mem_read {} expr
  exact ⟨operations, typed range (by decide), typed unique (by decide), typed unpack (by decide)⟩

end Query

end LogQuery
