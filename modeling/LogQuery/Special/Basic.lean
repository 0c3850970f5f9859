import LogQuery.Definition

/-!
# Connectives, options, variables and comments

Operations that are neither filters nor pipes: the words between filters, the options
of a query, a filter whose values come from a variable, and comments.
-/

namespace LogQuery.Special

/-- A connective is written in capitals. -/
def connective (id : OperationId) : Definition where
  id := id
  write op inner := afterSpace inner (op.id.keyword.map Char.toUpper)

namespace Options

/-- The settings of a query. -/
structure Settings where
  concurrency : Decimal := .zero
  ignoreTimeFilter : Bool := false

def Settings.params (o : Settings) : List Param := [.number o.concurrency, .flag o.ignoreTimeFilter]

def write (op : Operation) (inner : Text) : Text :=
  let concurrency : List Text := if op.int 0 > 0 then ["concurrency=" ++ op.text 0] else []
  let ignoreTime : List Text := if op.flag 1 then ["ignore_global_time_filter=true"] else []
  afterSpace inner ("options(" ++ Text.join ", " (concurrency ++ ignoreTime) ++ ")")

/-- One setting, `key=value`; anything else changes nothing. -/
def set (s : Scope) (o : Settings) : List Token → Settings
  | key :: sign :: value :: _ =>
    if !sign.hasText "=" then o
    else if key.isWord "concurrency" then
      { o with concurrency := (Reader.number? s value).getD o.concurrency }
    else if key.isWord "ignore_global_time_filter" then
      { o with ignoreTimeFilter := value.isWord "true" }
    else o
  | _ => o

def read (s : Scope) : Reader (List Param) := do
  match ← Reader.peek with
  | some (.bracket callee _ items) =>
    if callee == ("options" : Text) then
      Reader.skip 1
      return ((Segment.splitAtText "," items).foldl (set s) {}).params
    else return Settings.params {}
  | _ => return Settings.params {}

def definition (s : Scope) : Definition where
  id := .options
  params := [.number "Concurrency", .boolean "Ignore global time filter"]
  defaults := Settings.params {}
  write := write
  read _ := read s

end Options

namespace Variable

def write (s : Scope) (op : Operation) (inner : Text) : Text :=
  afterSpace inner (s.fieldMark (op.text 0) ++ "(" ++ op.text 1 ++ ")")

def read (s : Scope) (field : Option Text) : Reader (List Param) := do
  match (← Reader.peek).bind Token.bracket? with
  | some b =>
    Reader.skip 1
    return [s.fieldParam field, .text b.body]
  | none => return [s.fieldParam field, .empty]

def definition (s : Scope) : Definition where
  id := .containsAnyFromVariable
  params := [.string "Field", .string "Variable"]
  defaults := [.text s.defaultField, .empty]
  write := write s
  read := read s

end Variable

namespace Comment

/-- A comment ends its line. -/
def write (op : Operation) (inner : Text) : Text := afterSpace inner ("# " ++ op.text 0 ++ "\n")

def read : Reader (List Param) := do
  match (← Reader.peek).bind Token.comment? with
  | some text =>
    Reader.skip 1
    return [.text text]
  | none => return [.empty]

def definition : Definition where
  id := .comment
  params := [.string "Comment"]
  defaults := [.empty]
  write := write
  read _ := read

end Comment

end LogQuery.Special
