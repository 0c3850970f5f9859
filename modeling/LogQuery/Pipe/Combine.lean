import LogQuery.Definition

/-!
# Pipes with a count or a subquery

Limit, offset and sample hold one number. Join and union hold the text of another
query between brackets.
-/

namespace LogQuery.Pipe

namespace Count

def write (op : Operation) (inner : Text) : Text :=
  afterPipe inner (op.id.keyword ++ " " ++ op.text 0)

/-- Takes the next token if it is a value; what is no number counts as `default`. -/
def read (s : Scope) (default : Int) : Reader (List Param) := do
  match ← Reader.peek with
  | some t =>
    if t.isValue then Reader.skip 1
    return [.number ((Reader.number? s t).getD (.ofInt default))]
  | none => return [.int default]

/-- A pipe with one number, which starts from and falls back to `default`. -/
def definition (s : Scope) (id : OperationId) (name : Text) (default : Int) : Definition where
  id := id
  params := [.number name]
  defaults := [.int default]
  write := write
  read _ := read s default

end Count

namespace Join

/-- What may follow the subquery. -/
structure Clauses where
  mark : Text := []
  inner : Bool := false

def write (s : Scope) (op : Operation) (inner : Text) : Text :=
  let mark : Text := if (op.text 2).isEmpty then [] else " prefix " ++ s.quote (op.text 2)
  afterPipe inner ("join by (" ++ op.text 0 ++ ") (" ++ op.text 1 ++ ")" ++
    flagClause " inner" (op.flag 3) ++ mark)

def takeClause (s : Scope) (c : Clauses) : Reader (Reader.Round Clauses) := do
  if ← Reader.eatWord "inner" then return .more { c with inner := true }
  else if ← Reader.eatWord "prefix" then
    return .more { c with mark := ← Reader.takeValueD s [] }
  else return .done c

def read (s : Scope) : Reader (List Param) := do
  let fields := ((← Reader.takeByGroup).map Bracket.body).getD []
  let query := ((← Reader.takeGroup).map Bracket.body).getD []
  let c ← Reader.rounds (takeClause s) 2 {}
  return [.text fields, .text query, .text c.mark, .flag c.inner]

def definition (s : Scope) : Definition where
  id := .join
  params := [.string "Fields", .string "Subquery", .option "Prefix", .boolean "Inner"]
  defaults := [.empty, .empty, .empty, .flag false]
  write := write s
  read _ := read s

end Join

namespace Union

def write (op : Operation) (inner : Text) : Text := afterPipe inner ("union (" ++ op.text 0 ++ ")")

def read : Reader (List Param) := do
  return [.text (((← Reader.takeGroup).map Bracket.body).getD [])]

def definition : Definition where
  id := .union
  params := [.string "Subquery"]
  defaults := [.empty]
  write := write
  read _ := read

end Union

end LogQuery.Pipe
