import LogQuery.Operation.Param
import LogQuery.Token.Basic

/-!
# Scopes

A scope is what readers and writers of operations share: the field a filter applies to
when it names none, and the escape mode of quoted texts.
-/

namespace LogQuery

structure Scope where
  defaultField : Text := "_msg"
  escape : EscapeMode := .all
  deriving DecidableEq, Repr

namespace Scope

def quote (s : Scope) (t : Text) : Text := Quoting.quoteWith t none s.escape

/-- Always in quotes. -/
def quoteAlways (s : Scope) (t : Text) : Text := Quoting.quoteWith t (some true) s.escape

/-- In quotes when needed or when the text is blank. -/
def quoteVisible (s : Scope) (t : Text) : Text := Quoting.quoteWith t (some false) s.escape

/-- Quoted when needed; the empty text is a pair of double quotes. -/
def quoteOrEmpty (s : Scope) (t : Text) : Text := if t.isEmpty then "\"\"" else s.quote t

def unquote (s : Scope) (t : Text) : Text := Quoting.unquoteWith t s.escape

/-- The value that a token stands for. -/
def value (s : Scope) (t : Token) : Text := t.valueWith s.escape

def isDefaultField (s : Scope) (field : Text) : Bool := field.isEmpty || field == s.defaultField

/-- The field with a colon, left out for the default field. -/
def fieldMark (s : Scope) (field : Text) : Text :=
  if s.isDefaultField field then [] else s.quote field ++ ":"

/-- The named field, or the default when none is named. -/
def fieldOrDefault (s : Scope) (field : Option Text) : Text :=
  match field with
  | some f => if f.isEmpty then s.defaultField else f
  | none => s.defaultField

/-- The field to fill in for a filter, as a parameter. -/
def fieldParam (s : Scope) (field : Option Text) : Param := .text (s.fieldOrDefault field)

end Scope

end LogQuery
