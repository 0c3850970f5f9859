import LogQuery.Catalog
import LogQuery.Query.Basic

/-!
# Writing queries

A writer knows the operations of some categories and leaves the others out. Filters and
connectives are joined by spaces, pipes follow a bar, and a comment ends its line. A
writer that knows stats functions alone writes the function list of a `stats` pipe.
-/

namespace LogQuery

/-- What a query is written with. -/
structure Writer where
  scope : Scope := {}
  categories : List Category := Category.all

namespace Writer

/-- A writer for the given categories; their order does not matter. -/
def ofCategories (scope : Scope) (categories : List Category) : Writer where
  scope
  categories := Category.all.filter categories.contains

/-- A writer of function lists. -/
def stats (scope : Scope) : Writer := ofCategories scope [.stats]

def statsOnly (w : Writer) : Bool := w.categories == [.stats]

/-- The operations of this category are written. -/
def knows (w : Writer) (c : Category) : Bool := w.categories.contains c

/-- The definition of an operation that is written. -/
def definition? (w : Writer) (id : OperationId) : Option Definition :=
  if w.knows id.category then some (define w.scope id) else none

/-- The ids of a category, if it is written. -/
def ids (w : Writer) (c : Category) : List OperationId :=
  if w.knows c then OperationId.ofCategory c else []

/-- A text without plain spaces at its end. -/
def dropSpaces (t : Text) : Text := t.dropEndWhile (· == ' ')

/-- Two texts with a space between. Nothing is put in at the start of a line. -/
def joinSpace (left right : Text) : Text :=
  if left.isEmpty || left.endsWith "\n" then left ++ right else dropSpaces left ++ ' ' :: right

/-- The text so far and the last operation in it that is no comment. -/
structure State where
  out : Text
  previous : Option Definition := none

/-- Writes an operation after a text, by its definition. -/
def append (st : State) (d : Definition) (op : Operation) : State :=
  if d.id == .comment then { st with out := joinSpace st.out (d.write op []) }
  else
    let afterFilter :=
      match st.previous with
      | some p => p.isFilterLike
      | none => !st.out.isEmpty
    let out : Text :=
      if d.id.category == .operators then
        let keyword := d.write op []
        if st.previous.isNone || afterFilter then joinSpace st.out keyword
        else dropSpaces st.out ++ " | " ++ keyword
      else if d.isFilterLike && afterFilter then joinSpace st.out (d.write op [])
      else d.write op (dropSpaces st.out)
    { out, previous := some d }

/-- Writes a stats function after a list of them. -/
def appendFunction (st : State) (d : Definition) (op : Operation) : State :=
  let start : Text := if st.out.isEmpty then [] else st.out ++ ", "
  { out := start ++ d.write op [], previous := some d }

/-- One more operation; disabled and unknown ones are passed over. -/
def step (w : Writer) (st : State) (op : Operation) : State :=
  if op.disabled then st
  else match w.definition? op.id with
    | none => st
    | some d => if w.statsOnly then appendFunction st d op else append st d op

/-- Writes operations after a text. -/
def writeAfter (w : Writer) (start : Text) (ops : List Operation) : Text :=
  (ops.foldl w.step { out := start }).out.trim

/-- Writes operations. -/
def writeOperations (w : Writer) (ops : List Operation) : Text := w.writeAfter [] ops

/-- Writes labels as filters side by side. -/
def writeLabels (w : Writer) (labels : List LabelFilter) : Text :=
  w.writeOperations (labels.flatMap LabelFilter.toOperations)

/-- What stands between labels and operations whose first enabled one is `first`. -/
def labelJoint (w : Writer) (first : Option Operation) : Text :=
  match first.bind fun op => w.definition? op.id with
  | none => " | "
  | some d =>
    match d.id.category with
    | .filters => " AND "
    | .operators => " "
    | _ => " | "

/-- Writes the labels and operations of a query. -/
def write (w : Writer) (q : Query) : Text :=
  let labels := w.writeLabels q.labels
  let rest := w.writeOperations q.operations
  if labels.isEmpty then rest
  else if rest.isEmpty then labels
  else labels ++ w.labelJoint (q.operations.find? fun op => !op.disabled) ++ rest

end Writer

/-- Writes operations of every category in the default scope. -/
def writeOperations (ops : List Operation) : Text := ({} : Writer).writeOperations ops

end LogQuery
