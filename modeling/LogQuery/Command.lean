import LogQuery.Json.Query
import LogQuery.Json.Token
import LogQuery.Json.Writer
import LogQuery.Query.Reader
import LogQuery.Query.Writer
import LogQuery.Tree.Query

/-!
# Commands

What the command line offers, as functions from its input to the text it prints: a query
as operations, as a filter tree or as tokens, a query written anew, operations in JSON
written as a query, and the list of known operations.
-/

namespace LogQuery

/-- Why a command prints nothing. -/
inductive CommandError
  | lookup (e : Error)
  | badJson
  | noInput
  deriving DecidableEq, Repr

def CommandError.message : CommandError → Text
  | lookup e => "Error: " ++ e.message
  | badJson => "Invalid JSON"
  | noInput => "No input provided. Pass a query or pipe it to stdin."

namespace Command

/-- The result of a command. -/
abbrev Output := Except CommandError Text

/-- A command on an input that must not be blank. -/
def onInput (input : Text) (run : Text → Output) : Output :=
  if input.allBlank then .error .noInput else run input

/-- Writes a value on one line or on several. -/
def jsonText (pretty : Bool) (j : Json) : Text := if pretty then j.prettyText else j.text

/-- The default scope, with another default field if one is named. -/
def scopeFor (defaultField : Option Text) : Scope :=
  match defaultField with
  | some field => { defaultField := field }
  | none => {}

/-- A query as operations. -/
def parse (o : Query.Options) (pretty : Bool) (input : Text) : Output :=
  onInput input fun query =>
    .ok (jsonText pretty ({ query := Query.read o query } : ReadResult).toJson)

/-- A query written anew. -/
def format (o : Query.Options) (input : Text) : Output :=
  onInput input fun query => .ok (({ scope := o.scope } : Writer).write (Query.read o query))

/-- The filter tree of a query. -/
def tree (pretty : Bool) (input : Text) : Output :=
  onInput input fun query => .ok (jsonText pretty (Query.readTree query).toJson)

/-- The tokens of a query. -/
def tokens (pretty : Bool) (input : Text) : Output :=
  onInput input fun query => .ok (jsonText pretty (Token.listJson (tokenize query)))

/-- The query of operations, or of a whole query, in JSON. -/
def render (scope : Scope) (input : Text) : Output :=
  onInput input fun text =>
    match (Json.ofText? text).bind Query.ofInput? with
    | some query => .ok (({ scope } : Writer).write query)
    | none => .error .badJson

/-- The definitions of one category or of all. -/
def definitions (scope : Scope) (category : Option Category) : List Definition :=
  let ids := match category with
    | some c => OperationId.ofCategory c
    | none => OperationId.all
  ids.map (define scope)

/-- The known operations, of one category if it is named. -/
def catalog (scope : Scope) (category : Option Text) (pretty : Bool) : Output :=
  match category.mapM Category.ofName with
  | .error e => .error (.lookup e)
  | .ok c => .ok (jsonText pretty (.array ((definitions scope c).map Definition.toJson)))

end Command

end LogQuery
