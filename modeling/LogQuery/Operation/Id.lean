import LogQuery.Text.Case

/-!
# Operation ids and categories

Every operation a query can hold has an id with a keyword: the word that names it in
query text, or a stable name where the syntax has no word of its own. The ids fall
into five categories, which decide how neighbours are joined when a query is written.
-/

namespace LogQuery

/-- Groups of operations, in the order in which they are listed. -/
inductive Category
  | filters
  | operators
  | pipes
  | stats
  | special
  deriving DecidableEq, Repr

namespace Category

def all : List Category := [filters, operators, pipes, stats, special]

def name : Category → Text
  | filters => "filters"
  | operators => "operators"
  | pipes => "pipes"
  | stats => "stats"
  | special => "special"

/-- The category of this name in any case of its ASCII letters. -/
def ofName? (name : Text) : Option Category := all.find? fun c => c.name.sameFold name

end Category

/-- Identifiers of the filters, connectives, pipe stages, stats functions and special
operations. -/
inductive OperationId
  | word | time | dayRange | weekRange | stream | streamId | regexp | rangeComparison
  | exact | multiExact | containsAll | containsAny | sequence | range | ipv4Range
  | stringRange | lenRange | valueType | eqField | leField | ltField | logical | substring
  | patternMatch
  | and | or | not
  | blockStats | blocksCount | collapseNums | copy | decolorize | delete | dropEmptyFields
  | extract | extractRegexp | facets | fieldNames | fieldValues | fields | first | format
  | join | jsonArrayLen | hash | last | len | limit | math | offset | packJson | packLogfmt
  | rename | replace | replaceRegexp | sample | sort | stats | streamContext | timeAdd | top
  | union | uniq | unpackJson | unpackLogfmt | unpackSyslog | unpackWords | unroll
  | avg | count | countUniqHash | histogram | max | median | min | rateSum | rowAny | rowMax
  | rowMin | sum | sumLen | values | countEmpty | countUniq | jsonValues | uniqValues
  | quantile | rate
  | options | containsAnyFromVariable | comment
  deriving DecidableEq, Repr

namespace OperationId

/-- The filters, in catalog order. -/
def filterIds : List OperationId :=
  [word, time, dayRange, weekRange, stream, streamId, regexp, rangeComparison, exact,
   multiExact, containsAll, containsAny, sequence, range, ipv4Range, stringRange, lenRange,
   valueType, eqField, leField, ltField, logical, substring, patternMatch]

/-- The boolean connectives, in catalog order. -/
def operatorIds : List OperationId :=
  [and, or, not]

/-- The pipe stages, in catalog order. -/
def pipeIds : List OperationId :=
  [blockStats, blocksCount, collapseNums, copy, decolorize, delete, dropEmptyFields,
   extract, extractRegexp, facets, fieldNames, fieldValues, fields, first, format, join,
   jsonArrayLen, hash, last, len, limit, math, offset, packJson, packLogfmt, rename,
   replace, replaceRegexp, sample, sort, stats, streamContext, timeAdd, top, union, uniq,
   unpackJson, unpackLogfmt, unpackSyslog, unpackWords, unroll]

/-- The stats functions, in catalog order. -/
def statsIds : List OperationId :=
  [avg, count, countUniqHash, histogram, max, median, min, rateSum, rowAny, rowMax, rowMin,
   sum, sumLen, values, countEmpty, countUniq, jsonValues, uniqValues, quantile, rate]

/-- The special operations, in catalog order. -/
def specialIds : List OperationId :=
  [options, containsAnyFromVariable, comment]

/-- Every id, in catalog order. -/
def all : List OperationId := filterIds ++ operatorIds ++ pipeIds ++ statsIds ++ specialIds

/-- The word that names the operation. -/
def keyword : OperationId → Text
  | word => "word"
  | time => "time"
  | dayRange => "day_range"
  | weekRange => "week_range"
  | stream => "stream"
  | streamId => "stream_id"
  | regexp => "regexp"
  | rangeComparison => "range_comparison"
  | exact => "exact"
  | multiExact => "multi_exact"
  | containsAll => "contains_all"
  | containsAny => "contains_any"
  | sequence => "seq"
  | range => "range"
  | ipv4Range => "ipv4_range"
  | stringRange => "string_range"
  | lenRange => "len_range"
  | valueType => "value_type"
  | eqField => "eq_field"
  | leField => "le_field"
  | ltField => "lt_field"
  | logical => "logical"
  | substring => "substring"
  | patternMatch => "pattern_match"
  | and => "and"
  | or => "or"
  | not => "not"
  | blockStats => "block_stats"
  | blocksCount => "blocks_count"
  | collapseNums => "collapse_nums"
  | copy => "copy"
  | decolorize => "decolorize"
  | delete => "delete"
  | dropEmptyFields => "drop_empty_fields"
  | extract => "extract"
  | extractRegexp => "extract_regexp"
  | facets => "facets"
  | fieldNames => "field_names"
  | fieldValues => "field_values"
  | fields => "fields"
  | first => "first"
  | format => "format"
  | join => "join"
  | jsonArrayLen => "json_array_len"
  | hash => "hash"
  | last => "last"
  | len => "len"
  | limit => "limit"
  | math => "math"
  | offset => "offset"
  | packJson => "pack_json"
  | packLogfmt => "pack_logfmt"
  | rename => "rename"
  | replace => "replace"
  | replaceRegexp => "replace_regexp"
  | sample => "sample"
  | sort => "sort"
  | stats => "stats"
  | streamContext => "stream_context"
  | timeAdd => "time_add"
  | top => "top"
  | union => "union"
  | uniq => "uniq"
  | unpackJson => "unpack_json"
  | unpackLogfmt => "unpack_logfmt"
  | unpackSyslog => "unpack_syslog"
  | unpackWords => "unpack_words"
  | unroll => "unroll"
  | avg => "avg"
  | count => "count"
  | countUniqHash => "count_uniq_hash"
  | histogram => "histogram"
  | max => "max"
  | median => "median"
  | min => "min"
  | rateSum => "rate_sum"
  | rowAny => "row_any"
  | rowMax => "row_max"
  | rowMin => "row_min"
  | sum => "sum"
  | sumLen => "sum_len"
  | values => "values"
  | countEmpty => "count_empty"
  | countUniq => "count_uniq"
  | jsonValues => "json_values"
  | uniqValues => "uniq_values"
  | quantile => "quantile"
  | rate => "rate"
  | options => "options"
  | containsAnyFromVariable => "contains_any_from_variable"
  | comment => "comment"

/-- The title shown for the operation. -/
def title : OperationId → Text
  | word => "Word"
  | time => "Time filter"
  | dayRange => "Day range"
  | weekRange => "Week range"
  | stream => "Stream filter"
  | streamId => "Stream ID"
  | regexp => "Regexp"
  | rangeComparison => "Range comparison"
  | exact => "Exact"
  | multiExact => "Multi exact"
  | containsAll => "Contains all"
  | containsAny => "Contains any"
  | sequence => "Sequence"
  | range => "Range"
  | ipv4Range => "IPv4 range"
  | stringRange => "String range"
  | lenRange => "Length range"
  | valueType => "Value type"
  | eqField => "Equal to field"
  | leField => "Less or equal to field"
  | ltField => "Less than field"
  | logical => "Logical filter"
  | substring => "Substring"
  | patternMatch => "Pattern match"
  | and => "AND"
  | or => "OR"
  | not => "NOT"
  | blockStats => "Block stats"
  | blocksCount => "Blocks count"
  | collapseNums => "Collapse nums"
  | copy => "Copy"
  | decolorize => "Decolorize"
  | delete => "Delete"
  | dropEmptyFields => "Drop empty fields"
  | extract => "Extract"
  | extractRegexp => "Extract regexp"
  | facets => "Facets"
  | fieldNames => "Field names"
  | fieldValues => "Field values"
  | fields => "Fields"
  | first => "First"
  | format => "Format"
  | join => "Join"
  | jsonArrayLen => "JSON array length"
  | hash => "Hash"
  | last => "Last"
  | len => "Length"
  | limit => "Limit"
  | math => "Math"
  | offset => "Offset"
  | packJson => "Pack JSON"
  | packLogfmt => "Pack logfmt"
  | rename => "Rename"
  | replace => "Replace"
  | replaceRegexp => "Replace regexp"
  | sample => "Sample"
  | sort => "Sort"
  | stats => "Stats"
  | streamContext => "Stream context"
  | timeAdd => "Time add"
  | top => "Top"
  | union => "Union"
  | uniq => "Uniq"
  | unpackJson => "Unpack JSON"
  | unpackLogfmt => "Unpack logfmt"
  | unpackSyslog => "Unpack syslog"
  | unpackWords => "Unpack words"
  | unroll => "Unroll"
  | avg => "Average"
  | count => "Count"
  | countUniqHash => "Count unique hash"
  | histogram => "Histogram"
  | max => "Max"
  | median => "Median"
  | min => "Min"
  | rateSum => "Rate sum"
  | rowAny => "Row any"
  | rowMax => "Row max"
  | rowMin => "Row min"
  | sum => "Sum"
  | sumLen => "Sum length"
  | values => "Values"
  | countEmpty => "Count empty"
  | countUniq => "Count unique"
  | jsonValues => "JSON values"
  | uniqValues => "Unique values"
  | quantile => "Quantile"
  | rate => "Rate"
  | options => "Options"
  | containsAnyFromVariable => "Contains any from variable"
  | comment => "Comment"

/-- The id with exactly this keyword. -/
def ofKeyword? (word : Text) : Option OperationId := all.find? fun id => id.keyword == word

def category : OperationId → Category
  | word | time | dayRange | weekRange | stream | streamId | regexp | rangeComparison
  | exact | multiExact | containsAll | containsAny | sequence | range | ipv4Range
  | stringRange | lenRange | valueType | eqField | leField | ltField | logical | substring
  | patternMatch => .filters
  | and | or | not => .operators
  | avg | count | countUniqHash | histogram | max | median | min | rateSum | rowAny | rowMax
  | rowMin | sum | sumLen | values | countEmpty | countUniq | jsonValues | uniqValues
  | quantile | rate => .stats
  | options | containsAnyFromVariable | comment => .special
  | _ => .pipes

/-- The ids of a category, in catalog order. -/
def ofCategory (c : Category) : List OperationId := all.filter fun id => id.category == c

end OperationId

end LogQuery
