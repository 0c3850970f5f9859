import LogQuery.Error
import LogQuery.Filter.Call
import LogQuery.Filter.Comparison
import LogQuery.Filter.Stream
import LogQuery.Filter.Time
import LogQuery.Filter.Word
import LogQuery.Pipe.Aggregate
import LogQuery.Pipe.Combine
import LogQuery.Pipe.Compute
import LogQuery.Pipe.Extract
import LogQuery.Pipe.Fields
import LogQuery.Pipe.Unpack
import LogQuery.Special.Basic
import LogQuery.Stats.Function

/-!
# The catalog

Every id has exactly one definition in every scope. The ids of a category, in catalog
order, are listed with the ids themselves.
-/

namespace LogQuery

/-- The definition of an operation in a scope. -/
def define (s : Scope) : OperationId → Definition
  | .word => Filter.Word.definition s
  | .time => Filter.Time.definition s
  | .dayRange => Filter.TimeRange.dayRange s
  | .weekRange => Filter.TimeRange.weekRange s
  | .stream => Filter.Stream.definition
  | .streamId => Filter.StreamId.definition s
  | .regexp => Filter.Regexp.definition s
  | .rangeComparison => Filter.RangeComparison.definition s
  | .exact => Filter.Exact.definition s
  | .multiExact => Filter.MultiExact.definition s
  | .containsAll => Filter.Contains.definition s .containsAll
  | .containsAny => Filter.Contains.definition s .containsAny
  | .sequence => Filter.Sequence.definition s
  | .range => Filter.Range.definition s
  | .ipv4Range => Filter.Pair.ipv4Range s
  | .stringRange => Filter.Pair.stringRange s
  | .lenRange => Filter.Pair.lenRange s
  | .valueType => Filter.Single.definition s .valueType "Type"
  | .eqField => Filter.Single.definition s .eqField "Other field"
  | .leField => Filter.Single.definition s .leField "Other field"
  | .ltField => Filter.Single.definition s .ltField "Other field"
  | .logical => Filter.Logical.definition s
  | .substring => Filter.Substring.definition s
  | .patternMatch => Filter.Single.patternMatch s
  | .and => Special.connective .and
  | .or => Special.connective .or
  | .not => Special.connective .not
  | .blockStats => Pipe.bare .blockStats
  | .blocksCount => Pipe.bare .blocksCount
  | .collapseNums => Pipe.CollapseNums.definition s
  | .copy => Pipe.Mapping.copy s
  | .decolorize => Pipe.Decolorize.definition s
  | .delete => Pipe.Selection.definition .delete
  | .dropEmptyFields => Pipe.bare .dropEmptyFields
  | .extract => Pipe.Extract.definition s .extract
  | .extractRegexp => Pipe.Extract.definition s .extractRegexp
  | .facets => Pipe.Facets.definition s
  | .fieldNames => Pipe.bare .fieldNames
  | .fieldValues => Pipe.FieldValues.definition s
  | .fields => Pipe.Selection.definition .fields
  | .first => Pipe.FirstLast.definition s .first 3
  | .format => Pipe.Format.definition s
  | .join => Pipe.Join.definition s
  | .jsonArrayLen => Pipe.Measure.definition s .jsonArrayLen
  | .hash => Pipe.Measure.definition s .hash
  | .last => Pipe.FirstLast.definition s .last 0
  | .len => Pipe.Measure.definition s .len
  | .limit => Pipe.Count.definition s .limit "Limit" 10
  | .math => Pipe.Math.definition s
  | .offset => Pipe.Count.definition s .offset "Offset" 0
  | .packJson => Pipe.Pack.definition s .packJson
  | .packLogfmt => Pipe.Pack.definition s .packLogfmt
  | .rename => Pipe.Mapping.rename s
  | .replace => Pipe.Replace.definition s .replace
  | .replaceRegexp => Pipe.Replace.definition s .replaceRegexp
  | .sample => Pipe.Count.definition s .sample "Sample" 1
  | .sort => Pipe.SortBy.definition
  | .stats => Pipe.Stats.definition
  | .streamContext => Pipe.StreamContext.definition s
  | .timeAdd => Pipe.TimeAdd.definition s
  | .top => Pipe.Top.definition s
  | .union => Pipe.Union.definition
  | .uniq => Pipe.Uniq.definition s
  | .unpackJson => Pipe.Unpack.definition s .unpackJson
  | .unpackLogfmt => Pipe.Unpack.definition s .unpackLogfmt
  | .unpackSyslog => Pipe.Unpack.definition s .unpackSyslog
  | .unpackWords => Pipe.UnpackWords.definition s
  | .unroll => Pipe.Unroll.definition
  | .countEmpty => Stats.Call.withLimit s .countEmpty
  | .countUniq => Stats.Call.withLimit s .countUniq
  | .jsonValues => Stats.Call.withLimit s .jsonValues
  | .uniqValues => Stats.Call.withLimit s .uniqValues
  | .quantile => Stats.Quantile.definition s
  | .rate => Stats.Rate.definition s
  | .options => Special.Options.definition s
  | .containsAnyFromVariable => Special.Variable.definition s
  | .comment => Special.Comment.definition
  | id => Stats.Call.definition s id

namespace OperationId

/-- The operation of a category that a word names in any case. -/
def named? (c : Category) (word : Text) : Option OperationId :=
  let w := word.lower
  (ofCategory c).find? fun id => id.keyword == w

/-- The pipe stage that a word names. -/
def pipe? (word : Text) : Option OperationId := named? .pipes word

/-- The stats function that a word names. -/
def statsFunction? (word : Text) : Option OperationId := named? .stats word

/-- The id with exactly this keyword, or the error that there is none. -/
def ofName (name : Text) : Except Error OperationId :=
  match ofKeyword? name with
  | some id => .ok id
  | none => .error (.unknownOperation name)

end OperationId

/-- The category of this name in any case of its ASCII letters, or the error that there is
none. -/
def Category.ofName (name : Text) : Except Error Category :=
  match ofName? name with
  | some c => .ok c
  | none => .error (.unknownCategory name)

/-- Reads an operation's parameters; the result is the operation. -/
def readOperation (s : Scope) (id : OperationId) (field : Option Text) : Reader Operation := do
  return { id, params := ← (define s id).read field }

end LogQuery
