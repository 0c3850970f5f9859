import LogQuery.Command
import LogQuery.Json.Editor

/-!
# Command lines

A command line names a command and gives its options in any order. What stands for itself
is the input; without it the input comes from elsewhere. This module reads the words of a
command line and runs the command on an input.
-/

namespace LogQuery

/-- The commands that can be named. -/
inductive CommandName
  | parse
  | tree
  | tokens
  | render
  | format
  | catalog
  deriving DecidableEq, Repr

namespace CommandName

def all : List CommandName := [parse, tree, tokens, render, format, catalog]

def text : CommandName → Text
  | parse => "parse"
  | tree => "tree"
  | tokens => "tokens"
  | render => "render"
  | format => "fmt"
  | catalog => "catalog"

def ofText? (t : Text) : Option CommandName := all.find? fun c => c.text == t

end CommandName

/-- The options of a command line. -/
structure CommandOptions where
  input : Option Text := none
  defaultField : Option Text := none
  category : Option Text := none
  escape : EscapeMode := .all
  labels : Bool := false
  pretty : Bool := false
  deriving Repr

namespace CommandOptions

/-- Options that stand alone. -/
def setFlag (o : CommandOptions) (word : Text) : Option CommandOptions :=
  if word.isOneOf ["-p", "--pretty"] then some { o with pretty := true }
  else if word == ("--labels" : Text) then some { o with labels := true }
  else if word.isOneOf ["-v", "--verbose"] then some o
  else none

/-- Options with a value behind them. -/
def setValue (o : CommandOptions) (word value : Text) : Option CommandOptions :=
  if word == ("--default-field" : Text) then some { o with defaultField := some value }
  else if word.isOneOf ["-c", "--category"] then some { o with category := some value }
  else if word.isOneOf ["-i", "--input"] then some { o with input := some value }
  else if word == ("--escape-mode" : Text) then
    (EscapeMode.ofName? (value.map fun c => if c == '-' then '_' else c)).map fun m =>
      { o with escape := m }
  else none

/-- Reads options; a word that is none of them is the input. -/
def read (o : CommandOptions) : List Text → Except Text CommandOptions
  | [] => .ok o
  | [word] =>
    match o.setFlag word with
    | some next => .ok next
    | none =>
      if word.startsWith "-" then .error ("unexpected argument '" ++ word ++ "'")
      else .ok { o with input := some word }
  | word :: value :: rest =>
    match o.setFlag word with
    | some next => read next (value :: rest)
    | none =>
      match o.setValue word value with
      | some next => read next rest
      | none =>
        if word.startsWith "-" then .error ("unexpected argument '" ++ word ++ "'")
        else read { o with input := some word } (value :: rest)

/-- The scope that the options name. -/
def scope (o : CommandOptions) : Scope :=
  { Command.scopeFor o.defaultField with escape := o.escape }

end CommandOptions

namespace CommandName

/-- The command reads an input. -/
def readsInput (c : CommandName) : Bool := c != catalog

/-- Runs a command on an input. -/
def run (c : CommandName) (o : CommandOptions) (input : Text) : Command.Output :=
  match c with
  | parse => Command.parse { scope := o.scope, labels := o.labels } o.pretty input
  | tree => Command.tree o.pretty input
  | tokens => Command.tokens o.pretty input
  | render => Command.render (Command.scopeFor o.defaultField) input
  | format => Command.format { scope := o.scope, labels := o.labels } input
  | catalog => Command.catalog (Command.scopeFor o.defaultField) o.category o.pretty

end CommandName

end LogQuery
