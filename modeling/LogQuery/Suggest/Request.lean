import LogQuery.Text.Basic

/-!
# Suggestion requests

A request asks a log store for field names, or for the values of a field, that occur in
the results of a query. A value request can be narrowed to values that contain a text.
-/

namespace LogQuery

inductive SuggestKind
  | names
  | values
  deriving DecidableEq, Repr

/-- The searched window, both ends in milliseconds. -/
structure TimeWindow where
  start : Int
  stop : Int
  deriving DecidableEq, Repr

structure SuggestRequest where
  kind : SuggestKind
  query : Text := []
  field : Option Text := none
  limit : Option Nat := none
  /-- Only values that contain this text in any case. -/
  containing : Option Text := none
  window : Option TimeWindow := none
  deriving DecidableEq, Repr

namespace SuggestRequest

/-- A double quote with a backslash before it. -/
def escapeQuotes (t : Text) : Text := t.flatMap fun c => if c == '"' then ['\\', '"'] else [c]

/-- The query without white space at the ends, a star when it is blank. -/
def base (r : SuggestRequest) : Text := if r.query.allBlank then ['*'] else r.query.trim

/-- The filter of a value request for values that contain a text. -/
def narrowing? (r : SuggestRequest) : Option Text :=
  match r.kind, r.field, r.containing with
  | .values, some field, some t =>
    if t.isEmpty then none else some (field ++ ": i(\"" ++ escapeQuotes t ++ "\")")
  | _, _, _ => none

/-- The query that is sent to the store. -/
def effectiveQuery (r : SuggestRequest) : Text :=
  match r.narrowing? with
  | none => r.base
  | some filter =>
    if r.base == ['*'] then filter else "(" ++ r.base ++ ") AND " ++ filter

/-- A value request that names no field has no answer. -/
def isFieldless (r : SuggestRequest) : Bool :=
  r.kind == .values && (r.field.getD []).isEmpty

/-- The request for the whole store. -/
def unscoped (r : SuggestRequest) : SuggestRequest := { r with query := [] }

end SuggestRequest

end LogQuery
