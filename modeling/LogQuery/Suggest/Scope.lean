import LogQuery.Query.Writer
import LogQuery.Suggest.Request

/-!
# Scopes of suggestions

The names and values that an operation can refer to are those in the results of the
operations before it. A scope is the query of these results.
-/

namespace LogQuery.SuggestScope

/-- The scope of everything. -/
def everything : Text := "_msg:*"

/-- The operations before an index, or all of them. -/
def preceding (ops : List Operation) (index : Option Nat) : List Operation :=
  match index with
  | some i => ops.take i
  | none => ops

/-- The operations before an index as a query. -/
def precedingText (w : Writer) (ops : List Operation) (index : Option Nat) : Text :=
  (w.writeOperations (preceding ops index)).trim

/-- The list starts with an operation that can stand at the start of a query. -/
def startsWithFilter (w : Writer) (ops : List Operation) : Bool :=
  match ops.head?.bind fun op => w.definition? op.id with
  | some d => [.filters, .operators, .special].contains d.id.category
  | none => false

/-- The query whose results have the field names that the operation at an index can use. -/
def ofNames (w : Writer) (ops : List Operation) (index : Option Nat) : Text :=
  let query := precedingText w ops index
  if query.isEmpty || query == ("\"\"" : Text) then everything
  else if startsWithFilter w ops then query
  else everything ++ " | " ++ query

/-- The query whose results have the values that the operation at an index can use, with
one more pipe unless `pipe` is blank. -/
def ofValues (w : Writer) (ops : List Operation) (index : Option Nat) (pipe : Text) : Text :=
  let query := precedingText w ops index
  let start := if query.isEmpty then everything else query
  if pipe.allBlank then start else start ++ " | " ++ pipe.trim

/-- The pipes that list the storage types of a field. -/
def valueTypePipes (field : Text) : Text :=
  "uniq by \"" ++ SuggestRequest.escapeQuotes field ++ "\" | block_stats"

end LogQuery.SuggestScope
