import LogQuery.Operation.Basic
import LogQuery.Token.Reader

/-!
# Definitions of operations

A definition lays down what the parameters of an operation mean, which ones a new
operation starts with, how the operation is written after the text before it, and how
its parameters are read from tokens.
-/

namespace LogQuery

inductive ParamKind
  | string
  | number
  | boolean
  deriving DecidableEq, Repr

/-- One position of a parameter list. -/
structure ParamSpec where
  name : Text
  kind : ParamKind
  /-- Stands for every further parameter as well. -/
  repeats : Bool := false
  optional : Bool := false
  deriving DecidableEq, Repr

namespace ParamSpec

def string (name : Text) : ParamSpec := { name, kind := .string }

def number (name : Text) : ParamSpec := { name, kind := .number }

def boolean (name : Text) : ParamSpec := { name, kind := .boolean }

/-- A text that may be empty. -/
def option (name : Text) : ParamSpec := { name, kind := .string, optional := true }

/-- Texts to the end of the list. -/
def strings (name : Text) : ParamSpec := { name, kind := .string, repeats := true }

end ParamSpec

/-- The definition of one operation in a scope. -/
structure Definition where
  id : OperationId
  params : List ParamSpec := []
  defaults : List Param := []
  /-- Writes the operation after a text. -/
  write : Operation → Text → Text
  /-- Reads the parameters; the field is the one named before the operation. -/
  read : Option Text → Reader (List Param) := fun _ => pure []

namespace Definition

/-- A new operation. -/
def defaultOperation (d : Definition) : Operation := { id := d.id, params := d.defaults }

/-- Stands among filters, joined to its neighbours by a space. -/
def isFilterLike (d : Definition) : Bool :=
  d.id.category == .filters || d.id.category == .operators ||
    d.id == .containsAnyFromVariable || d.id == .options

end Definition

/-! ### Joining to the text before -/

/-- A filter after a text that a pipe ends; at the start nothing is put before it. -/
def afterFilter (inner expr : Text) : Text :=
  if inner.isEmpty then expr else inner ++ " | filter " ++ expr

/-- A pipe stage after a text. -/
def afterPipe (inner expr : Text) : Text := if inner.isEmpty then expr else inner ++ " | " ++ expr

/-- After a text and a space. -/
def afterSpace (inner expr : Text) : Text := if inner.isEmpty then expr else inner ++ ' ' :: expr

/-- The text after an opening, when there is one. -/
def clause (opening t : Text) : Text := if t.isEmpty then [] else opening ++ t

/-- The clause of an optional number. -/
def numberClause (opening : Text) (n : Option Text) : Text :=
  match n with
  | some t => opening ++ t
  | none => []

/-- A word that stands for a flag. -/
def flagClause (word : Text) (b : Bool) : Text := if b then word else []

/-- The condition of an operation. -/
def conditionClause (condition : Text) : Text :=
  if condition.isEmpty then [] else " if (" ++ condition ++ ")"

/-- A list of fields in brackets after an opening, when there is one. -/
def groupClause (opening fields : Text) : Text :=
  if fields.isEmpty then [] else opening ++ " (" ++ fields ++ ")"

end LogQuery
