import LogQuery.Json.Operation
import LogQuery.Json.Reader
import LogQuery.Query.Basic

/-!
# Queries and filter trees as JSON

A leaf of a tree is a string, and a group is a record of its values and operators. Parts
of a query that are empty are left out, except the operations and the text.
-/

namespace LogQuery

mutual

def FilterNode.toJson : FilterNode → Json
  | .leaf t => .string t
  | .group values operators =>
    .object [("values", .array (FilterNode.listJson values)), ("operators", Json.ofTexts operators)]

def FilterNode.listJson : List FilterNode → List Json
  | [] => []
  | v :: vs => v.toJson :: FilterNode.listJson vs

end

namespace FilterTree

def toJson (t : FilterTree) : Json := t.toNode.toJson

/-- Reads a record of values and operators, given a reader for values. -/
def readRecord? (value : Json → Option FilterNode) (j : Json) : Option FilterTree := do
  let r ← Record.ofJson? ["values", "operators"] j
  return { values := ← r.withDefault "values" [] (Json.list? value),
           operators := ← r.withDefault "operators" [] Json.texts? }

/-- Reads a value with groups to the given number of levels. -/
def readNode? : Nat → Json → Option FilterNode
  | 0, _ => none
  | levels + 1, j =>
    match j.text? with
    | some t => some (.leaf t)
    | none => (readRecord? (readNode? levels) j).map toNode

/-- Reads a value, all of whose parts must be readable. -/
def nodeOfJson? (j : Json) : Option FilterNode :=
  if j.isSound then readNode? (Json.maxNesting + 1) j else none

def ofJson? : Json → Option FilterTree := readRecord? nodeOfJson?

end FilterTree

namespace LabelFilter

def toJson (l : LabelFilter) : Json :=
  .object [("label", .string l.label), ("op", .string l.op), ("value", .string l.value)]

def ofJson? (j : Json) : Option LabelFilter := do
  let r ← Record.ofJson? ["label", "op", "value"] j
  return { label := ← r.required "label" Json.text?, op := ← r.required "op" Json.text?,
           value := ← r.required "value" Json.text? }

end LabelFilter

namespace Query

def toJson (q : Query) : Json :=
  .object (Json.memberUnless q.labels.isEmpty "labels" (.array (q.labels.map LabelFilter.toJson)) ++
    ([("operations", Operation.listJson q.operations)] : Json.Members) ++
    Json.memberUnless q.filters.isEmpty "filters" q.filters.toJson ++
    Json.memberUnless q.pipes.isEmpty "pipes" (Json.ofTexts q.pipes) ++
    ([("expr", .string q.expr)] : Json.Members))

def ofJson? (j : Json) : Option Query := do
  let r ← Record.ofJson? ["labels", "operations", "filters", "pipes", "expr"] j
  return { labels := ← r.withDefault "labels" [] (Json.list? LabelFilter.ofJson?),
           operations := ← r.withDefault "operations" [] (Json.list? Operation.ofJson?),
           filters := ← r.withDefault "filters" {} FilterTree.ofJson?,
           pipes := ← r.withDefault "pipes" [] Json.texts?,
           expr := ← r.withDefault "expr" [] Json.text? }

/-- Reads a list of operations or else a whole query, all of whose parts must be readable. -/
def ofInput? (j : Json) : Option Query :=
  if j.isSound then
    match Json.list? Operation.ofJson? j with
    | some operations => some { operations }
    | none => ofJson? j
  else none

end Query

namespace ReadResult

def toJson (r : ReadResult) : Json :=
  .object [("query", r.query.toJson), ("errors", Json.ofTexts r.errors)]

def ofJson? (j : Json) : Option ReadResult := do
  let r ← Record.ofJson? ["query", "errors"] j
  return { query := ← r.required "query" Query.ofJson?,
           errors := ← r.withDefault "errors" [] Json.texts? }

end ReadResult

end LogQuery
