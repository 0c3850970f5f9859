import LogQuery.Decimal.Binary
import LogQuery.Definition
import LogQuery.Json.Record

/-!
# Operations as JSON

An operation is its id, its parameters as plain values, and a mark when it is disabled. A
number is written as the binary number nearest to it.
-/

namespace LogQuery

namespace Param

def toJson : Param → Json
  | flag b => .bool b
  | text t => .string t
  | number n => .real n.negative n.toBinary

/-- Reads a parameter. A number that is no integer is read from its shortest digits. -/
def ofJson? : Json → Option Param
  | .bool b => some (flag b)
  | .string t => some (text t)
  | .integer n => some (int n)
  | .real negative x => (Decimal.ofBinary? negative x).map number
  | _ => none

def listJson (ps : List Param) : Json := .array (ps.map toJson)

end Param

def OperationId.toJson (id : OperationId) : Json := .string id.keyword

def OperationId.ofJson? (j : Json) : Option OperationId := j.name?.bind ofKeyword?

namespace Category

def toJson (c : Category) : Json := .string c.name

/-- Reads a category by its exact name. -/
def ofJson? (j : Json) : Option Category := j.name?.bind fun t => all.find? fun c => c.name == t

end Category

namespace Operation

def toJson (op : Operation) : Json :=
  .object (([("id", op.id.toJson), ("params", Param.listJson op.params)] : Json.Members) ++
    Json.memberUnless (!op.disabled) "disabled" (.bool op.disabled))

def ofJson? (j : Json) : Option Operation := do
  let r ← Record.ofJson? ["id", "params", "disabled"] j
  return { id := ← r.required "id" OperationId.ofJson?,
           params := ← r.withDefault "params" [] (Json.list? Param.ofJson?),
           disabled := ← r.withDefault "disabled" false Json.bool? }

def listJson (ops : List Operation) : Json := .array (ops.map toJson)

end Operation

def ParamKind.name : ParamKind → Text
  | .string => "string"
  | .number => "number"
  | .boolean => "boolean"

def ParamSpec.toJson (p : ParamSpec) : Json :=
  .object (([("name", .string p.name), ("kind", .string p.kind.name)] : Json.Members) ++
    Json.memberUnless (!p.repeats) "rest" (.bool p.repeats) ++
    Json.memberUnless (!p.optional) "optional" (.bool p.optional))

/-- What an editor shows of a definition. -/
def Definition.toJson (d : Definition) : Json :=
  .object [("id", d.id.toJson), ("name", .string d.id.title), ("category", d.id.category.toJson),
    ("params", .array (d.params.map ParamSpec.toJson)),
    ("default_params", Param.listJson d.defaults)]

end LogQuery
