import LogQuery.Filter.Comparison

/-!
# Time filters

A time filter compares the time field with a moment, a duration or a bracketed range,
kept as it is written. Day and week ranges bound the time of day and the weekday; a
square bracket includes its bound. Each may be shifted by an offset.
-/

namespace LogQuery.Filter

/-- Takes the offset clause of a time filter. -/
def takeOffset (s : Scope) : Reader Text := do
  if ← Reader.eatWord "offset" then Reader.takeValueD s [] else return []

namespace Time

/-- The signs that a moment or duration may follow. -/
def comparisons : List Text := [">", "<", ">=", "<="]

/-- Takes a bracket, a run of parts between colons, or a single value. -/
def takeOperand (s : Scope) : Reader Text := do
  match ← Reader.peek with
  | some (.bracket callee raw _) =>
    Reader.skip 1
    return callee ++ raw
  | some (.field _) =>
    let parts ← Reader.takeRun Token.field?
    let last ← Reader.takeValue s
    return Text.join ":" (parts ++ last.toList)
  | some t =>
    if t.isValue then
      Reader.skip 1
      return s.value t
    else return []
  | none => return []

/-- Takes the rest of a comparison when all that has been read is its sign. -/
def takeComparison (s : Scope) (value : Text) : Reader Text := do
  let sign ← takeSign value
  if comparisons.contains sign then return sign ++ (← Reader.takeValueD s []) else return sign

def write (op : Operation) (inner : Text) : Text :=
  afterFilter inner ("_time:" ++ op.text 0 ++ clause " offset " (op.text 1))

def read (s : Scope) : Reader (List Param) := do
  let value ← takeComparison s (← takeOperand s)
  return [.text value, .text (← takeOffset s)]

def definition (s : Scope) : Definition where
  id := .time
  params := [.string "Filter", .option "Offset"]
  defaults := [.empty, .empty]
  write := write
  read _ := read s

end Time

namespace TimeRange

/-- The field that is meant when none is named. -/
def timeField : Text := "_time"

/-- The bounds between two delimiters and whether each belongs to the range. -/
structure Bounds where
  start : Text := []
  stop : Text := []
  withStart : Bool := false
  withStop : Bool := false

/-- The bounds a bracket holds. Unless it holds two parts they are empty. -/
def Bounds.ofBracket (b : Bracket) : Bounds :=
  let (start, stop) : Text × Text :=
    match b.inner.splitOn (· == ',') with
    | [first, second] => (first.trim, second.trim)
    | _ => ([], [])
  { start, stop, withStart := b.opensWith '[', withStop := b.closesWith ']' }

/-- Takes a bracket after one word at most. -/
def takeBounds : Reader Bounds := do
  if (← Reader.peek).any fun t => t.word?.isSome then Reader.skip 1
  match (← Reader.peek).bind Token.bracket? with
  | some b =>
    Reader.skip 1
    return .ofBracket b
  | none => return {}

/-- Short and full names of the weekdays. -/
def weekdays : List (Text × Text) :=
  [("mon", "Monday"), ("tue", "Tuesday"), ("wed", "Wednesday"), ("thu", "Thursday"),
   ("fri", "Friday"), ("sat", "Saturday"), ("sun", "Sunday")]

/-- The full name of a weekday given by its short one. -/
def fullWeekday (day : Text) : Text :=
  ((weekdays.find? fun (short, _) => short.sameFold day).map Prod.snd).getD day

/-- The word that opens the range, `day_range` or `week_range`. -/
def write (s : Scope) (name : Text) (op : Operation) (inner : Text) : Text :=
  let field := if (op.text 0).isEmpty then timeField else s.quote (op.text 0)
  let opening : Text := if op.flag 3 then ['['] else ['(']
  let closing : Text := if op.flag 4 then [']'] else [')']
  afterFilter inner (field ++ ":" ++ name ++ opening ++ op.text 1 ++ ", " ++ op.text 2 ++
    closing ++ clause " offset " (op.text 5))

/-- Reads a range; `day` says how a bound is understood. -/
def read (s : Scope) (day : Text → Text) (field : Option Text) : Reader (List Param) := do
  let bounds ← takeBounds
  let offset ← takeOffset s
  return [.text ((field.bind Text.nonempty?).getD timeField), .text (day bounds.start),
    .text (day bounds.stop), .flag bounds.withStart, .flag bounds.withStop, .text offset]

def params : List ParamSpec :=
  [.string "Field", .string "Start", .string "End", .boolean "Include start",
   .boolean "Include end", .option "Offset"]

/-- Bounds of the time of day. -/
def dayRange (s : Scope) : Definition where
  id := .dayRange
  params := params
  defaults := [.text timeField, .text "08:00", .text "18:00", .flag false, .flag false, .empty]
  write := write s "day_range"
  read := read s id

/-- Bounds of the weekday, short names written out. -/
def weekRange (s : Scope) : Definition where
  id := .weekRange
  params := params
  defaults := [.text timeField, .text "Mon", .text "Fri", .flag false, .flag false, .empty]
  write := write s "week_range"
  read := read s fullWeekday

end TimeRange

end LogQuery.Filter
