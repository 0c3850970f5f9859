import LogQuery.Definition
import LogQuery.Filter.Legacy

/-!
# Filters written as calls

Filters of the form `name(arguments)` after an optional field. Some keep the text of
the bracket, the others the values listed inside it.
-/

namespace LogQuery.Filter

/-- The raw text of a call that is missing. -/
def emptyCall : Text := "()"

/-- An argument text, quoted or as it is. -/
def argument (s : Scope) (quoted : Bool) (t : Text) : Text := if quoted then s.quoteOrEmpty t else t

/-- Writes `name(arguments)` after the field. -/
def writeCall (s : Scope) (op : Operation) (arguments inner : Text) : Text :=
  afterFilter inner (s.fieldMark (op.text 0) ++ op.id.keyword ++ "(" ++ arguments ++ ")")

/-- Takes a call and lists the values inside it. -/
def takeArguments (s : Scope) : Reader (List Text) := do
  return ((← Reader.takeCall).map fun b => Reader.listedValues s b.items).getD []

namespace MultiExact

def write (s : Scope) (op : Operation) (inner : Text) : Text :=
  afterFilter inner (s.fieldMark (op.text 0) ++ "in" ++ op.text 1)

/-- The bracketed list of values. The older form with a sign before each value is
written anew. -/
def valueList (s : Scope) (b : Bracket) : Text :=
  if b.isBare && Legacy.isMultiExact b.items then
    "(" ++ Text.join ", " ((Legacy.values b.items).map s.quoteOrEmpty) ++ ")"
  else b.raw

def read (s : Scope) (field : Option Text) : Reader (List Param) := do
  return [s.fieldParam field, .text (((← Reader.takeCall).map (valueList s)).getD emptyCall)]

def definition (s : Scope) : Definition where
  id := .multiExact
  params := [.string "Field", .string "Values"]
  defaults := [.text s.defaultField, .text emptyCall]
  write := write s
  read := read s

end MultiExact

namespace Contains

def write (s : Scope) (op : Operation) (inner : Text) : Text :=
  afterFilter inner (s.fieldMark (op.text 0) ++ op.id.keyword ++ op.text 1)

def read (s : Scope) (field : Option Text) : Reader (List Param) := do
  return [s.fieldParam field, .text (((← Reader.takeCall).map Bracket.raw).getD emptyCall)]

/-- The filters that a field contains all or any of the listed values. -/
def definition (s : Scope) (id : OperationId) : Definition where
  id := id
  params := [.string "Field", .string "Values"]
  defaults := [.text s.defaultField, .text emptyCall]
  write := write s
  read := read s

end Contains

namespace Sequence

def write (s : Scope) (op : Operation) (inner : Text) : Text :=
  writeCall s op (Text.join ", " (op.params.tail.map fun p => s.quoteOrEmpty p.toText)) inner

def read (s : Scope) (field : Option Text) : Reader (List Param) := do
  let phrases ← takeArguments s
  return s.fieldParam field :: if phrases.isEmpty then [.empty] else phrases.map .text

def definition (s : Scope) : Definition where
  id := .sequence
  params := [.string "Field", .strings "Phrase"]
  defaults := [.text s.defaultField, .empty]
  write := write s
  read := read s

end Sequence

namespace Range

def write (s : Scope) (op : Operation) (inner : Text) : Text :=
  let opening : Text := if op.flag 3 then ['['] else ['(']
  let closing : Text := if op.flag 4 then [']'] else [')']
  afterFilter inner (s.fieldMark (op.text 0) ++ "range" ++ opening ++ op.text 1 ++ ", " ++
    op.text 2 ++ closing)

/-- The two bounds a bracket lists; zero each unless there are exactly two. -/
def bounds (s : Scope) (b : Bracket) : Param × Param :=
  match Reader.listedValues s b.items with
  | [lower, upper] => (.text lower, .text upper)
  | _ => (.int 0, .int 0)

def read (s : Scope) (field : Option Text) : Reader (List Param) := do
  match ← Reader.takeCall with
  | none => return [s.fieldParam field, .int 0, .int 0, .flag false, .flag false]
  | some b =>
    let (lower, upper) := bounds s b
    return [s.fieldParam field, lower, upper, .flag (b.opensWith '['), .flag (b.closesWith ']')]

def definition (s : Scope) : Definition where
  id := .range
  params := [.string "Field", .number "Lower", .number "Upper", .boolean "Include lower",
    .boolean "Include upper"]
  defaults := [.text s.defaultField, .int 0, .int 0, .flag false, .flag false]
  write := write s
  read := read s

end Range

/-! ### One or two arguments -/

namespace Pair

/-- String bounds are quoted, and a network range may have one argument. -/
def write (s : Scope) (op : Operation) (inner : Text) : Text :=
  let quoted := op.id == .stringRange
  let first := argument s quoted (op.text 1)
  let arguments :=
    if op.id == .ipv4Range && (op.text 2).isEmpty then first
    else first ++ ", " ++ argument s quoted (op.text 2)
  writeCall s op arguments inner

def read (s : Scope) (field : Option Text) : Reader (List Param) := do
  let values ← takeArguments s
  return [s.fieldParam field, .text (values[0]?.getD []), .text (values[1]?.getD [])]

def ipv4Range (s : Scope) : Definition where
  id := .ipv4Range
  params := [.string "Field", .string "Start or CIDR", .option "End"]
  defaults := [.text s.defaultField, .empty, .empty]
  write := write s
  read := read s

def stringRange (s : Scope) : Definition where
  id := .stringRange
  params := [.string "Field", .string "Start", .string "End"]
  defaults := [.text s.defaultField, .empty, .empty]
  write := write s
  read := read s

def lenRange (s : Scope) : Definition where
  id := .lenRange
  params := [.string "Field", .number "Min", .number "Max"]
  defaults := [.text s.defaultField, .text ['5'], .text ['1', '0']]
  write := write s
  read := read s

end Pair

namespace Single

/-- The one argument; a type name is written as it is. -/
def write (s : Scope) (op : Operation) (inner : Text) : Text :=
  writeCall s op (if op.id == .valueType then op.text 1 else s.quote (op.text 1)) inner

def read (s : Scope) (field : Option Text) : Reader (List Param) := do
  return [s.fieldParam field, .text ((← takeArguments s).head?.getD [])]

/-- A filter with one argument of the given name. -/
def definition (s : Scope) (id : OperationId) (name : Text) : Definition where
  id := id
  params := [.string "Field", .string name]
  defaults := [.text s.defaultField, .empty]
  write := write s
  read := read s

/-- A pattern is always quoted. -/
def patternMatch (s : Scope) : Definition :=
  { definition s .patternMatch "Pattern" with
    write := fun op inner => writeCall s op (s.quoteAlways (op.text 1)) inner }

end Single

namespace Logical

def write (s : Scope) (op : Operation) (inner : Text) : Text :=
  afterFilter inner (s.fieldMark (op.text 0) ++ "(" ++ op.text 1 ++ ")")

def read (s : Scope) (field : Option Text) : Reader (List Param) := do
  match (← Reader.peek).bind Token.bracket? with
  | some b =>
    Reader.skip 1
    return [s.fieldParam field, .text b.inner]
  | none => return [s.fieldParam field, .empty]

def definition (s : Scope) : Definition where
  id := .logical
  params := [.string "Field", .string "Query"]
  defaults := [.text s.defaultField, .empty]
  write := write s
  read := read s

end Logical

end LogQuery.Filter
