import LogQuery.Definition

/-!
# Pipes that order, group and limit

Each starts from an optional number, a list of fields in brackets after `by`, or both,
and goes on with clauses that a keyword opens.
-/

namespace LogQuery.Pipe

/-- Takes the fields of a `partition by (…)` whose first word has been taken. -/
def takePartition (default : Text) : Reader Text := do
  return ((← Reader.takeKeywordGroup "by").map Bracket.body).getD default

namespace Facets

/-- Limits that are zero when they are not set. -/
structure Limits where
  perField : Decimal := .zero
  valueLength : Decimal := .zero
  keepConst : Bool := false

def write (op : Operation) (inner : Text) : Text :=
  afterPipe inner ("facets" ++ numberClause " " (op.positive? 0) ++
    numberClause " max_values_per_field " (op.positive? 1) ++
    numberClause " max_value_len " (op.positive? 2) ++
    flagClause " keep_const_fields" (op.flag 3))

def takeClause (s : Scope) (l : Limits) : Reader (Reader.Round Limits) := do
  if ← Reader.eatWord "max_values_per_field" then
    return .more { l with perField := ← Reader.takeNumber s 0 }
  else if ← Reader.eatWord "max_value_len" then
    return .more { l with valueLength := ← Reader.takeNumber s 50 }
  else if ← Reader.eatWord "keep_const_fields" then return .more { l with keepConst := true }
  else return .done l

def read (s : Scope) : Reader (List Param) := do
  let limit := (← Reader.takeNumber? s).getD .zero
  let l ← Reader.rounds (takeClause s) 3 {}
  return [.number limit, .number l.perField, .number l.valueLength, .flag l.keepConst]

def definition (s : Scope) : Definition where
  id := .facets
  params := [.number "Limit", .number "Max values per field", .number "Max value length",
    .boolean "Keep const fields"]
  defaults := [.int 0, .int 0, .int 0, .flag false]
  write := write
  read _ := read s

end Facets

namespace FieldValues

def write (s : Scope) (op : Operation) (inner : Text) : Text :=
  afterPipe inner ("field_values " ++ s.quote (op.text 0) ++
    numberClause " limit " (op.positive? 1))

def read (s : Scope) : Reader (List Param) := do
  let field ← Reader.takeValueD s s.defaultField
  let limit ← if ← Reader.eatWord "limit" then Reader.takeNumber s 0 else pure .zero
  return [.text field, .number limit]

def definition (s : Scope) : Definition where
  id := .fieldValues
  params := [.string "Field", .number "Limit"]
  defaults := [.text s.defaultField, .int 0]
  write := write s
  read _ := read s

end FieldValues

namespace FirstLast

def write (op : Operation) (inner : Text) : Text :=
  afterPipe inner (op.id.keyword ++ numberClause " " (op.positive? 0) ++ " by (" ++ op.text 1 ++
    ")" ++ flagClause " desc" (op.flag 2) ++ groupClause " partition by" (op.text 3))

def read (s : Scope) : Reader (List Param) := do
  let limit := (← Reader.takeNumber? s).getD .zero
  let fields := ((← Reader.takeByGroup).map Bracket.body).getD []
  let desc ← Reader.eatWord "desc"
  let partition ← if ← Reader.eatWord "partition" then takePartition [] else pure []
  return [.number limit, .text fields, .flag desc, .text partition]

/-- The first or last entries, so many of them at the start. -/
def definition (s : Scope) (id : OperationId) (limit : Int) : Definition where
  id := id
  params := [.number "Limit", .string "Fields", .boolean "Desc", .option "Partition by"]
  defaults := [.int limit, .empty, .flag false, .empty]
  write := write
  read _ := read s

end FirstLast

namespace SortBy

/-- What may follow the fields to sort by. -/
structure Clauses where
  desc : Bool := false
  limit : Decimal := .zero
  offset : Decimal := .zero
  partition : Text := []

def write (op : Operation) (inner : Text) : Text :=
  afterPipe inner ("sort by (" ++ op.text 0 ++ ")" ++ flagClause " desc" (op.flag 1) ++
    groupClause " partition by" (op.text 4) ++ numberClause " limit " (op.positive? 2) ++
    numberClause " offset " (op.positive? 3))

def takeClause (c : Clauses) : Reader (Reader.Round Clauses) := do
  if ← Reader.eatWord "partition" then
    match ← Reader.takeKeywordGroup "by" with
    | some b => return .more { c with partition := Token.sourceText b.items }
    | none => return .more c
  else if ← Reader.eatWord "limit" then return .more { c with limit := ← Reader.takeInt }
  else if ← Reader.eatWord "offset" then return .more { c with offset := ← Reader.takeInt }
  else if ← Reader.eatWord "desc" then return .more { c with desc := true }
  else if ← Reader.eatWord "asc" then return .more { c with desc := false }
  else return .done c

def params (fields : Text) (c : Clauses) : List Param :=
  [.text fields, .flag c.desc, .number c.limit, .number c.offset, .text c.partition]

/-- Without bracketed fields no clause is read. -/
def read : Reader (List Param) := do
  match ← Reader.takeByGroup with
  | none => return params [] {}
  | some b => return params b.body (← Reader.loop takeClause {})

def definition : Definition where
  id := .sort
  params := [.string "Fields", .boolean "Desc", .number "Limit", .number "Offset",
    .option "Partition by"]
  defaults := params [] {}
  write := write
  read _ := read

end SortBy

namespace Stats

def write (op : Operation) (inner : Text) : Text :=
  afterPipe inner ("stats" ++ groupClause " by" (op.text 0) ++ clause " " (op.text 1))

/-- Everything after the fields is kept as the text of the function list. -/
def read : Reader (List Param) := do
  let fields := ((← Reader.takeByGroup).map Bracket.body).getD []
  return [.text fields, .text (Token.compactText (← Reader.all))]

def definition : Definition where
  id := .stats
  params := [.string "By", .string "Functions"]
  defaults := [.empty, .empty]
  write := write
  read _ := read

end Stats

namespace Top

/-- The name of the rank field unless another is given. -/
def rankName : Text := "rank"

/-- What may follow the fields. -/
structure Clauses where
  hits : Text := []
  rank : Bool := false
  rankField : Text := rankName
  partition : Text := []

/-- A limit of ten is left out. -/
def write (s : Scope) (op : Operation) (inner : Text) : Text :=
  let limit : Text := if op.int 0 ≠ 10 ∧ op.int 0 > 0 then op.text 0 ++ " " else []
  let hits : Text := if (op.text 2).isEmpty then [] else " hits as " ++ s.quote (op.text 2)
  let rankField : Text :=
    if (op.text 4).isEmpty || op.text 4 == rankName then [] else " as " ++ s.quote (op.text 4)
  afterPipe inner ("top " ++ limit ++ "by (" ++ op.text 1 ++ ")" ++
    groupClause " partition by" (op.text 5) ++ hits ++
    flagClause (" rank" ++ rankField) (op.flag 3))

def takeClause (s : Scope) (c : Clauses) : Reader (Reader.Round Clauses) := do
  if ← Reader.eatWord "partition" then
    return .more { c with partition := ← takePartition c.partition }
  else if ← Reader.eatWord "hits" then
    let _ ← Reader.eatWord "as"
    return .more { c with hits := ← Reader.takeValueD s [] }
  else
    let withWord ← Reader.eatWord "with"
    let rankWord ← Reader.eatWord rankName
    if withWord || rankWord then
      if ← Reader.eatWord "as" then
        return .more { c with rank := true, rankField := ← Reader.takeValueD s rankName }
      else return .more { c with rank := true }
    else return .done c

def read (s : Scope) : Reader (List Param) := do
  let limit := (← Reader.takeNumber? s).getD (.ofInt 10)
  let fields ← Reader.takeBy
  let c ← Reader.loop (takeClause s) {}
  return [.number limit, .text fields, .text c.hits, .flag c.rank, .text c.rankField,
    .text c.partition]

def definition (s : Scope) : Definition where
  id := .top
  params := [.number "Limit", .string "Fields", .option "Hits field", .boolean "Rank",
    .string "Rank field", .option "Partition by"]
  defaults := [.int 10, .empty, .empty, .flag false, .text rankName, .empty]
  write := write s
  read _ := read s

end Top

namespace Uniq

/-- What may follow the fields. -/
structure Clauses where
  hits : Bool := false
  limit : Decimal := .zero

def write (op : Operation) (inner : Text) : Text :=
  afterPipe inner ("uniq by (" ++ op.text 0 ++ ")" ++ flagClause " with hits" (op.flag 1) ++
    numberClause " limit " (op.positive? 2))

def takeClause (s : Scope) (c : Clauses) : Reader (Reader.Round Clauses) := do
  if ← Reader.eatWord "with" then
    return .more { c with hits := (← Reader.eatWord "hits") || c.hits }
  else if ← Reader.eatWord "hits" then return .more { c with hits := true }
  else if ← Reader.eatWord "limit" then return .more { c with limit := ← Reader.takeNumber s 0 }
  else return .done c

def read (s : Scope) : Reader (List Param) := do
  let fields ← Reader.takeBy
  let c ← Reader.rounds (takeClause s) 2 {}
  return [.text fields, .flag c.hits, .number c.limit]

def definition (s : Scope) : Definition where
  id := .uniq
  params := [.string "Fields", .boolean "With hits", .number "Limit"]
  defaults := [.empty, .flag false, .int 0]
  write := write
  read _ := read s

end Uniq

namespace StreamContext

/-- The window unless another is given. -/
def defaultWindow : Text := "1h"

structure Context where
  before : Decimal := .zero
  after : Decimal := .zero
  window : Text := defaultWindow

def write (op : Operation) (inner : Text) : Text :=
  let window : Text := if op.text 2 == defaultWindow then [] else clause " time_window " (op.text 2)
  afterPipe inner ("stream_context" ++ numberClause " before " (op.positive? 0) ++
    numberClause " after " (op.positive? 1) ++ window)

/-- A keyword at the very end opens no clause. -/
def takeClause (s : Scope) (c : Context) : Reader (Reader.Round Context) := do
  if (← Reader.look).length < 2 then return .done c
  else if ← Reader.eatWord "before" then
    return .more { c with before := ← Reader.takeNumber s 0 }
  else if ← Reader.eatWord "after" then return .more { c with after := ← Reader.takeNumber s 0 }
  else if ← Reader.eatWord "time_window" then
    return .more { c with window := ← Reader.takeValueD s defaultWindow }
  else return .done c

def read (s : Scope) : Reader (List Param) := do
  let c ← Reader.rounds (takeClause s) 3 {}
  return [.number c.before, .number c.after, .text c.window]

def definition (s : Scope) : Definition where
  id := .streamContext
  params := [.number "Before", .number "After", .string "Time window"]
  defaults := [.int 0, .int 0, .text defaultWindow]
  write := write
  read _ := read s

end StreamContext

end LogQuery.Pipe
