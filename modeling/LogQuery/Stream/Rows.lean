import LogQuery.Quoting.Basic

/-!
# Rows of stream filters

An editor holds stream filters as rows of a label, an operator and values. A row without
label or values is incomplete and is left out of the query.
-/

namespace LogQuery

inductive StreamOperator
  | equal
  | notEqual
  deriving DecidableEq, Repr

structure StreamRow where
  label : Text
  operator : StreamOperator := .equal
  values : List Text := []
  deriving DecidableEq, Repr

namespace StreamRow

/-- A value in double quotes; a variable stays as it is. -/
def valueText (v : Text) : Text := if v.startsWith "$" then v else Quoting.inDoubleQuotes v

/-- The stream filter of a row, empty for an incomplete row. -/
def text (r : StreamRow) : Text :=
  if r.label.isEmpty || r.values.isEmpty then []
  else
    let word : Text := match r.operator with
      | .equal => "in"
      | .notEqual => "not_in"
    "_stream:\x7b" ++ r.label ++ " " ++ word ++ " (" ++ Text.join ", " (r.values.map valueText) ++
      ")\x7d"

/-- The complete rows as one filter. -/
def filterText (rows : List StreamRow) : Text :=
  Text.join " AND " ((rows.map text).filter fun t => !t.isEmpty)

/-- The complete rows before row `current` as one filter. -/
def precedingText (rows : List StreamRow) (current : Nat) : Text := filterText (rows.take current)

/-- Puts a text into a list in increasing order, once. -/
def insertLabel (t : Text) : List Text → List Text
  | [] => [t]
  | u :: us => if t == u then u :: us else if t.le u then t :: u :: us else u :: insertLabel t us

/-- The labels of the rows other than row `except`, in increasing order. -/
def usedLabels (rows : List StreamRow) (except : Nat) : List Text :=
  ((rows.eraseIdx except).filter fun r => !r.label.isEmpty).foldl
    (fun labels r => insertLabel r.label labels) []

end StreamRow

end LogQuery
