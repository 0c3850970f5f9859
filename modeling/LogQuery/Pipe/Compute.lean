import LogQuery.Definition
import LogQuery.Pipe.Extract

/-!
# Pipes that compute fields

Lengths and hashes, arithmetic, packing of fields into one and shifts of the time
field.
-/

namespace LogQuery.Pipe

/-- The clause that names a result field, when there is one. -/
def resultClause (s : Scope) (result : Text) : Text :=
  if result.isEmpty then [] else " as " ++ s.quote result

namespace Measure

def write (s : Scope) (op : Operation) (inner : Text) : Text :=
  afterPipe inner (op.id.keyword ++ "(" ++ s.quote (op.text 0) ++ ")" ++ resultClause s (op.text 1))

/-- The keyword is the name of the call. -/
def read (s : Scope) : Reader (List Param) := do
  match ← Reader.takeCall with
  | none => return [.empty, .empty]
  | some b =>
    let result ← if ← Reader.eatWord "as" then Reader.takeValueD s [] else pure []
    return [.text (((b.items.find? Token.isValue).map s.value).getD []), .text result]

/-- A pipe that measures one field. -/
def definition (s : Scope) (id : OperationId) : Definition where
  id := id
  params := [.string "Field", .string "Result field"]
  defaults := [.empty, .empty]
  write := write s
  read _ := read s

end Measure

namespace Math

def write (op : Operation) (inner : Text) : Text :=
  afterPipe inner ("math " ++ Text.join ", " (op.params.map Param.toText))

/-- A part of an arithmetic expression; `as` and a comma end it. -/
def part? : Token → Option Text
  | .word w => if w == ("as" : Text) || w == [','] then none else some w
  | .quote v => some v
  | .bracket callee raw _ => some (callee ++ raw)
  | _ => none

/-- An expression with its result field. -/
def entry (s : Scope) (parts : List Text) (result : Text) : Text :=
  Text.join " " parts ++ " as " ++ s.quoteOrEmpty result

/-- Takes an expression. It ends at `as` with a result field, at a comma, or where no
part follows; a comma at the very end leaves an empty expression. -/
def takeEntry (s : Scope) (entries : List Text) : Reader (Reader.Round (List Text)) := do
  let parts ← Reader.takeRun part?
  match (← Reader.peek).bind Token.word? with
  | none => return .done (if parts.isEmpty then entries else entries ++ [entry s parts []])
  | some w =>
    if w == ("as" : Text) then Reader.skip 1
    let entries := entries ++ [entry s parts (← Reader.takeValueD s [])]
    if ← Reader.eatText "," then
      return .more (if (← Reader.look).isEmpty then entries ++ [[]] else entries)
    else return .done entries

def read (s : Scope) : Reader (List Param) := do
  let entries ← Reader.loop (takeEntry s) []
  return if entries.isEmpty then [.empty] else entries.map .text

def definition (s : Scope) : Definition where
  id := .math
  params := [.strings "Expression"]
  defaults := [.empty]
  write := write
  read _ := read s

end Math

namespace Pack

/-- The fields to pack and the field to put them in. -/
structure Target where
  fields : Text := []
  result : Text

def write (s : Scope) (op : Operation) (inner : Text) : Text :=
  afterPipe inner (op.id.keyword ++ groupClause " fields" (op.text 0) ++
    fieldClause s " as " (op.text 1))

def takeClause (s : Scope) (t : Target) : Reader (Reader.Round Target) := do
  match ← Reader.takeKeywordGroup "fields" with
  | some b => return .more { t with fields := b.body }
  | none =>
    if ← Reader.eatWord "as" then
      return .more { t with result := ← Reader.takeValueD s t.result }
    else return .done t

def read (s : Scope) : Reader (List Param) := do
  let t ← Reader.rounds (takeClause s) 2 { result := s.defaultField }
  return [.text t.fields, .text t.result]

/-- A pipe that packs fields into one. -/
def definition (s : Scope) (id : OperationId) : Definition where
  id := id
  params := [.option "Fields", .string "Result field"]
  defaults := [.empty, .text s.defaultField]
  write := write s
  read _ := read s

end Pack

namespace TimeAdd

/-- The shift unless another is given. -/
def defaultDuration : Text := "1h"

def write (s : Scope) (op : Operation) (inner : Text) : Text :=
  let field : Text := if (op.text 1).isEmpty then [] else " at " ++ s.quote (op.text 1)
  afterPipe inner ("time_add " ++ op.text 0 ++ field)

/-- Takes a duration, a minus sign before it included. -/
def takeDuration (s : Scope) : Reader Text := do
  if ← Reader.eatWord "-" then return '-' :: (← Reader.takeValueD s [])
  else Reader.takeValueD s defaultDuration

def read (s : Scope) : Reader (List Param) := do
  let duration ← takeDuration s
  let field ← if ← Reader.eatWord "at" then Reader.takeValueD s [] else pure []
  return [.text duration, .text field]

def definition (s : Scope) : Definition where
  id := .timeAdd
  params := [.string "Duration", .option "Field"]
  defaults := [.text defaultDuration, .empty]
  write := write s
  read _ := read s

end TimeAdd

end LogQuery.Pipe
