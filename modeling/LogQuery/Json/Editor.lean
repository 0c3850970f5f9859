import LogQuery.Edit.Label
import LogQuery.Edit.TimeSort
import LogQuery.Json.Record
import LogQuery.Stream.Rows
import LogQuery.Stream.Selector
import LogQuery.Suggest.Hits
import LogQuery.Suggest.Request

/-!
# Values of editors as JSON

The rows and selectors of streams, added filters, and requests for suggestions with their
hits, as records; the choices among a few cases, as names.
-/

namespace LogQuery

namespace EscapeMode

def name : EscapeMode → Text
  | all => "all"
  | firstOccurrence => "first_occurrence"

def ofName? (t : Text) : Option EscapeMode :=
  [all, firstOccurrence].find? fun m => m.name == t

def toJson (m : EscapeMode) : Json := .string m.name

def ofJson? (j : Json) : Option EscapeMode := j.name?.bind ofName?

end EscapeMode

namespace SortDirection

def toJson (d : SortDirection) : Json := .string d.text

def ofJson? (j : Json) : Option SortDirection :=
  j.name?.bind fun t => [asc, desc].find? fun d => d.text == t

end SortDirection

namespace LabelOperator

def name : LabelOperator → Text
  | contains => "Contains"
  | lacks => "Not"
  | equal => "Equal"
  | notEqual => "NotEqual"
  | oneOf => "In"
  | noneOf => "NotIn"

def toJson (o : LabelOperator) : Json := .string o.name

def ofJson? (j : Json) : Option LabelOperator :=
  j.name?.bind fun t => all.find? fun o => o.name == t

end LabelOperator

namespace LabelTerm

def toJson (l : LabelTerm) : Json :=
  .object [("key", .string l.key), ("value", .string l.value), ("values", Json.ofTexts l.values),
    ("operator", l.operator.toJson)]

def ofJson? (j : Json) : Option LabelTerm := do
  let r ← Record.ofJson? ["key", "value", "values", "operator"] j
  return { key := ← r.required "key" Json.text?, value := ← r.required "value" Json.text?,
           values := ← r.withDefault "values" [] Json.texts?,
           operator := ← r.required "operator" LabelOperator.ofJson? }

end LabelTerm

namespace StreamOperator

def name : StreamOperator → Text
  | equal => "="
  | notEqual => "!="

def ofName? (t : Text) : Option StreamOperator := [equal, notEqual].find? fun o => o.name == t

def toJson (o : StreamOperator) : Json := .string o.name

def ofJson? (j : Json) : Option StreamOperator := j.name?.bind ofName?

end StreamOperator

namespace StreamRow

def toJson (r : StreamRow) : Json :=
  .object [("label", .string r.label), ("operator", r.operator.toJson),
    ("values", Json.ofTexts r.values)]

def ofJson? (j : Json) : Option StreamRow := do
  let r ← Record.ofJson? ["label", "operator", "values"] j
  return { label := ← r.required "label" Json.text?,
           operator := ← r.withDefault "operator" .equal StreamOperator.ofJson?,
           values := ← r.withDefault "values" [] Json.texts? }

end StreamRow

namespace StreamSelector

def toJson (s : StreamSelector) : Json :=
  .object [("label", .string s.label), ("not_in", .bool s.negated),
    ("values", Json.ofTexts s.values)]

def ofJson? (j : Json) : Option StreamSelector := do
  let r ← Record.ofJson? ["label", "not_in", "values"] j
  return { label := ← r.required "label" Json.text?,
           negated := ← r.required "not_in" Json.bool?,
           values := ← r.required "values" Json.texts? }

end StreamSelector

namespace Hit

def toJson (h : Hit) : Json := .object [("value", .string h.value), ("hits", .integer h.count)]

def ofJson? (j : Json) : Option Hit := do
  let r ← Record.ofJson? ["value", "hits"] j
  return { value := ← r.required "value" Json.text?,
           count := ← r.required "hits" Json.natural? }

end Hit

namespace SuggestKind

def name : SuggestKind → Text
  | names => "names"
  | values => "values"

def ofName? (t : Text) : Option SuggestKind := [names, values].find? fun k => k.name == t

def toJson (k : SuggestKind) : Json := .string k.name

def ofJson? (j : Json) : Option SuggestKind := j.name?.bind ofName?

end SuggestKind

namespace TimeWindow

def toJson (w : TimeWindow) : Json :=
  .object [("start", .integer w.start), ("end", .integer w.stop)]

def ofJson? (j : Json) : Option TimeWindow := do
  let r ← Record.ofJson? ["start", "end"] j
  return { start := ← r.required "start" Json.integer?,
           stop := ← r.required "end" Json.integer? }

end TimeWindow

namespace SuggestRequest

def toJson (r : SuggestRequest) : Json :=
  .object [("kind", r.kind.toJson), ("query", .string r.query),
    ("field", Json.ofOption Json.string r.field),
    ("limit", Json.ofOption (fun n : Nat => .integer n) r.limit),
    ("value_prefix", Json.ofOption Json.string r.containing),
    ("time_range", Json.ofOption TimeWindow.toJson r.window)]

def ofJson? (j : Json) : Option SuggestRequest := do
  let r ← Record.ofJson? ["kind", "query", "field", "limit", "value_prefix", "time_range"] j
  return { kind := ← r.required "kind" SuggestKind.ofJson?,
           query := ← r.required "query" Json.text?,
           field := ← r.optional "field" Json.text?,
           limit := ← r.optional "limit" Json.natural?,
           containing := ← r.optional "value_prefix" Json.text?,
           window := ← r.optional "time_range" TimeWindow.ofJson? }

end SuggestRequest

end LogQuery
