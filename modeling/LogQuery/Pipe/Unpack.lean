import LogQuery.Definition
import LogQuery.Pipe.Compute

/-!
# Unpacking pipes

Pipes that take a field apart. The three that read a record format share their clauses
and differ in the trailing parameters: the syslog one has an offset, the others a flag
to skip empty results.
-/

namespace LogQuery.Pipe

namespace Unpack

/-- What may follow the condition. -/
structure Clauses where
  field : Text
  fields : Text := []
  resultMark : Text := []
  keepFields : Bool := false
  skipEmpty : Bool := false
  offset : Text := []

/-- The clauses of a pipe that is not yet followed by any. -/
def Clauses.start (s : Scope) : Clauses := { field := s.defaultField }

/-- The record formats with an offset in place of the flag. -/
def hasOffset (id : OperationId) : Bool := id == .unpackSyslog

/-- Position of the condition. -/
def conditionIndex (id : OperationId) : Nat := if hasOffset id then 4 else 5

def write (s : Scope) (op : Operation) (inner : Text) : Text :=
  let resultMark : Text :=
    if (op.text 2).isEmpty then [] else " result_prefix " ++ s.quoteAlways (op.text 2)
  let trailing : Text :=
    if hasOffset op.id then clause " offset " (op.text 5)
    else flagClause " skip_empty_results" (op.flag 4)
  afterPipe inner (op.id.keyword ++ conditionClause (op.text (conditionIndex op.id)) ++
    fieldClause s " from " (op.text 0) ++ groupClause " fields" (op.text 1) ++ resultMark ++
    flagClause " keep_original_fields" (op.flag 3) ++ trailing)

def takeClause (s : Scope) (offset : Bool) (c : Clauses) : Reader (Reader.Round Clauses) := do
  if ← Reader.eatWord "from" then return .more { c with field := ← Reader.takeValueD s c.field }
  else match ← Reader.takeKeywordGroup "fields" with
  | some b => return .more { c with fields := b.body }
  | none =>
    if ← Reader.eatWord "result_prefix" then
      return .more { c with resultMark := ← Reader.takeValueD s [] }
    else if ← Reader.eatWord "keep_original_fields" then
      return .more { c with keepFields := true }
    else if ← Reader.eatWord (if offset then "offset" else "skip_empty_results") then
      if offset then return .more { c with offset := ← Reader.takeValueD s [] }
      else return .more { c with skipEmpty := true }
    else return .done c

/-- The parameters in their order for the kind of pipe. -/
def params (offset : Bool) (c : Clauses) (condition : Text) : List Param :=
  [.text c.field, .text c.fields, .text c.resultMark, .flag c.keepFields] ++
    if offset then [.text condition, .text c.offset] else [.flag c.skipEmpty, .text condition]

def read (s : Scope) (offset : Bool) : Reader (List Param) := do
  let condition ← Reader.takeCondition
  return params offset (← Reader.loop (takeClause s offset) (.start s)) condition

def layout (offset : Bool) : List ParamSpec :=
  [.string "From field", .option "Fields", .option "Result prefix",
   .boolean "Keep original fields"] ++
    if offset then [.option "Condition", .option "Offset"]
    else [.boolean "Skip empty results", .option "Condition"]

/-- A pipe that unpacks a record format. -/
def definition (s : Scope) (id : OperationId) : Definition where
  id := id
  params := layout (hasOffset id)
  defaults := params (hasOffset id) (.start s) []
  write := write s
  read _ := read s (hasOffset id)

end Unpack

namespace UnpackWords

/-- Where the words come from and go to. -/
structure Clauses where
  field : Text
  result : Text := []
  dropDuplicates : Bool := false

def write (s : Scope) (op : Operation) (inner : Text) : Text :=
  afterPipe inner ("unpack_words from " ++ s.quote (op.text 0) ++ resultClause s (op.text 1) ++
    flagClause " drop_duplicates" (op.flag 2))

def takeClause (s : Scope) (c : Clauses) : Reader (Reader.Round Clauses) := do
  if ← Reader.eatWord "from" then
    return .more { c with field := ← Reader.takeValueD s s.defaultField }
  else if ← Reader.eatWord "as" then return .more { c with result := ← Reader.takeValueD s [] }
  else if ← Reader.eatWord "drop_duplicates" then return .more { c with dropDuplicates := true }
  else return .done c

def read (s : Scope) : Reader (List Param) := do
  let c ← Reader.loop (takeClause s) { field := s.defaultField }
  return [.text c.field, .text c.result, .flag c.dropDuplicates]

def definition (s : Scope) : Definition where
  id := .unpackWords
  params := [.string "From field", .option "Result field", .boolean "Drop duplicates"]
  defaults := [.text s.defaultField, .empty, .flag false]
  write := write s
  read _ := read s

end UnpackWords

namespace Unroll

def write (op : Operation) (inner : Text) : Text :=
  afterPipe inner ("unroll" ++ conditionClause (op.text 1) ++ " by (" ++ op.text 0 ++ ")")

def read : Reader (List Param) := do
  let condition ← Reader.takeCondition
  return [.text (← Reader.takeBy), .text condition]

def definition : Definition where
  id := .unroll
  params := [.string "Fields", .option "Condition"]
  defaults := [.empty, .empty]
  write := write
  read _ := read

end Unroll

end LogQuery.Pipe
