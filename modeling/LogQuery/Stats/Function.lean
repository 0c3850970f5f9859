import LogQuery.Definition
import LogQuery.Pipe.Compute

/-!
# Stats functions

The functions inside a `stats` pipe are separated by commas. Each is a call with an
optional condition and result field after it. Four of them take a limit, the quantile
takes its percentile as first argument, and the rate has no arguments.
-/

namespace LogQuery.Stats

/-- After a function list and a comma. -/
def afterFunction (inner expr : Text) : Text :=
  if inner.isEmpty then expr else inner ++ ", " ++ expr

/-- The result field and the condition of a function. -/
structure Tail where
  result : Text := []
  condition : Text := []

/-- Takes `if (…)` and a result field, with `as` or without. -/
def takeTail (s : Scope) : Reader Tail := do
  let condition ← Reader.takeCondition
  let _ ← Reader.eatWord "as"
  return { result := ← Reader.takeValueD s [], condition }

/-- The condition and the result field of the operation, at the given positions. -/
def tailText (s : Scope) (op : Operation) (result condition : Nat) : Text :=
  conditionClause (op.text condition) ++ Pipe.resultClause s (op.text result)

/-- The functions with a limit. -/
def limited : List OperationId := [.countEmpty, .countUniq, .jsonValues, .uniqValues]

namespace Call

def write (s : Scope) (op : Operation) (inner : Text) : Text :=
  let call := op.id.keyword ++ "(" ++ op.text 0 ++ ")"
  if limited.contains op.id then
    let limit : Text := if op.int 1 > 0 then " limit " ++ op.text 1 else []
    afterFunction inner (call ++ limit ++ tailText s op 2 3)
  else afterFunction inner (call ++ tailText s op 1 2)

/-- The tokens start with the name of a function that has a limit, in any case. -/
def startsLimited : List Token → Bool
  | .bracket name _ _ :: _ | .word name :: _ => limited.any fun id => id.keyword == name.lower
  | _ => false

/-- The function's own name, at the front of the tokens, says whether there is a limit. -/
def read (s : Scope) : Reader (List Param) := do
  if startsLimited (← Reader.look) then
    let fields := ((← Reader.takeCall).map Bracket.body).getD []
    let limit ← if ← Reader.eatWord "limit" then Reader.takeNumber s 0 else pure .zero
    let tail ← takeTail s
    return [.text fields, .number limit, .text tail.result, .text tail.condition]
  else
    let fields := ((← Reader.takeCall).map Bracket.body).getD []
    let tail ← takeTail s
    return [.text fields, .text tail.result, .text tail.condition]

/-- A function of a list of fields. -/
def definition (s : Scope) (id : OperationId) : Definition where
  id := id
  params := [.option "Fields", .option "Result field", .option "Condition"]
  defaults := [.empty, .empty, .empty]
  write := write s
  read _ := read s

/-- A function of a list of fields with a limit. -/
def withLimit (s : Scope) (id : OperationId) : Definition where
  id := id
  params := [.option "Fields", .number "Limit", .option "Result field", .option "Condition"]
  defaults := [.empty, .int 0, .empty, .empty]
  write := write s
  read _ := read s

end Call

namespace Quantile

/-- The percentile, as the digits after the point, and the fields. -/
def write (s : Scope) (op : Operation) (inner : Text) : Text :=
  afterFunction inner ("quantile(0." ++ Decimal.intText (op.int 0) ++ clause ", " (op.text 1) ++
    ")" ++ tailText s op 2 3)

/-- The percentile that is meant when none is given. -/
def defaultPercentile : Int := 5

/-- The digits that follow `0.` in the first argument, as a number. -/
def percentile (argument : Text) : Int :=
  match argument.trim with
  | '0' :: '.' :: digits => (Decimal.leadingInt? digits).getD defaultPercentile
  | _ => defaultPercentile

/-- The percentile and the fields listed in a bracket. -/
def arguments (body : Text) : Int × Text :=
  match body.splitFirst? (· == ',') with
  | some (first, rest) => (percentile first, rest.trim)
  | none => (percentile body, [])

def read (s : Scope) : Reader (List Param) := do
  let (p, fields) :=
    ((← Reader.takeCall).map fun b => arguments b.body).getD (defaultPercentile, [])
  let tail ← takeTail s
  return [.int p, .text fields, .text tail.result, .text tail.condition]

def definition (s : Scope) : Definition where
  id := .quantile
  params := [.number "Percentile", .option "Fields", .option "Result field", .option "Condition"]
  defaults := [.int defaultPercentile, .empty, .empty, .empty]
  write := write s
  read _ := read s

end Quantile

namespace Rate

def write (s : Scope) (op : Operation) (inner : Text) : Text :=
  afterFunction inner ("rate()" ++ tailText s op 0 1)

def read (s : Scope) : Reader (List Param) := do
  let _ ← Reader.takeCall
  let tail ← takeTail s
  return [.text tail.result, .text tail.condition]

def definition (s : Scope) : Definition where
  id := .rate
  params := [.option "Result field", .option "Condition"]
  defaults := [.empty, .empty]
  write := write s
  read _ := read s

end Rate

end LogQuery.Stats
