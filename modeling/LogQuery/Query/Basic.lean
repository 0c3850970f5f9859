import LogQuery.Operation.Basic
import LogQuery.Tree.Basic

/-!
# Queries

The editable form of a query: the label filters lifted from its start, its operations
in order, the tree of its filters with the pipes as text, and the text it was read from.
Which parts are filled in depends on how the query was read.
-/

namespace LogQuery

/-- A comparison of a label with a value by one of `=`, `!=`, `=~`, `!~`. -/
structure LabelFilter where
  label : Text
  op : Text
  value : Text
  deriving DecidableEq, Repr

structure Query where
  labels : List LabelFilter := []
  operations : List Operation := []
  filters : FilterTree := {}
  pipes : List Text := []
  expr : Text := []
  deriving Repr

/-- A query with what was wrong with its text. -/
structure ReadResult where
  query : Query
  errors : List Text := []
  deriving Repr

namespace LabelFilter

/-- The exact or regular expression filter of a label. -/
def toOperation (l : LabelFilter) : Operation :=
  if l.op == ("=~" : Text) || l.op == ("!~" : Text) then
    { id := .regexp, params := [.text l.label, .text l.value, .flag false] }
  else
    { id := .exact,
      params := [.text l.label, .text l.value, .flag (l.op == ("!=" : Text)), .flag false] }

/-- The operations of a label; a negated regular expression stands after a `not`. -/
def toOperations (l : LabelFilter) : List Operation :=
  if l.op == ("!~" : Text) then [.marker .not, l.toOperation] else [l.toOperation]

end LabelFilter

end LogQuery
