import LogQuery.Catalog
import LogQuery.Query.Basic

/-!
# Reading queries

A query is cut at its pipes and connectives, and each run of tokens in between is read
as a sequence of operations. Reading never fails: what no operation fits is read as a
word filter, so that every token ends up somewhere. Right after a connective only
filters are read, no pipes.
-/

namespace LogQuery

namespace Query

/-! ### Choosing a filter -/

/-- The filters that are calls, by name. -/
def calls : List (Text × OperationId) :=
  [("day_range", .dayRange), ("week_range", .weekRange), ("contains_all", .containsAll),
   ("contains_any", .containsAny), ("seq", .sequence), ("range", .range),
   ("ipv4_range", .ipv4Range), ("string_range", .stringRange), ("len_range", .lenRange),
   ("value_type", .valueType), ("eq_field", .eqField), ("le_field", .leField),
   ("lt_field", .ltField), ("pattern_match", .patternMatch), ("in", .multiExact)]

/-- Fields with filters of their own. -/
def reservedField? (field : Option Text) (ts : List Token) : Option OperationId :=
  if field == some ("_time" : Text) then
    let name := Reader.callName ts
    if name == ("day_range" : Text) then some .dayRange
    else if name == ("week_range" : Text) then some .weekRange
    else some .time
  else if field == some ("_stream" : Text) then some .stream
  else if field == some ("_stream_id" : Text) then some .streamId
  else none

/-- The tokens are one word that names a variable. -/
def isVariable : List Token → Bool
  | [.word w] => w.startsWith "$"
  | _ => false

/-- A bracket without a callee: round for a variable, a value list or a subquery, curly
for a stream. -/
def bracketFilter? : List Token → Option OperationId
  | .bracket [] raw items :: _ =>
    if raw.startsWith "(" then
      if isVariable items then some .containsAnyFromVariable
      else if Filter.Legacy.isMultiExact items then some .multiExact
      else some .logical
    else if raw.startsWith "\x7b" then some .stream
    else none
  | _ => none

/-- A word that starts with `sign`. -/
def wordStarts (t : Token) (sign : Char) : Bool := t.word?.any fun w => w.head? == some sign

/-- Filters known by the sign they start with. -/
def signFilter? : List Token → Option OperationId
  | [] => none
  | first :: rest =>
    if wordStarts first '~' then some .regexp
    else if first.isWord "=" || (first.isWord "!" && rest.head?.any fun t => t.isWord "=") then
      some .exact
    else if Filter.Substring.startsHere (first :: rest) then some .substring
    else none

/-- Filters known by the name of a call, in any case. The options of a query stand only
where pipes may stand. -/
def callFilter? (onlyFilters : Bool) (ts : List Token) : Option OperationId :=
  let name := (Reader.callName ts).lower
  match calls.find? fun (w, _) => w == name with
  | some (_, id) => some id
  | none => if name == ("options" : Text) && !onlyFilters then some .options else none

/-- `field in (…)` and `field not_in (…)`: the field and whether it is negated. -/
def membership? : List Token → Option (Text × Bool)
  | .word field :: .word word :: .bracket [] _ _ :: _ =>
    let w := word.lower
    if w == ("in" : Text) then some (field, false)
    else if w == ("not_in" : Text) then some (field, true)
    else none
  | _ => none

/-- The stats function that a word or call names. -/
def statsName? : Token → Option OperationId
  | .word w => OperationId.statsFunction? w
  | .bracket callee _ _ => OperationId.statsFunction? callee
  | _ => none

/-- Takes a stats function if one comes next. -/
def takeStats? (s : Scope) : Reader (Option Operation) := do
  match (← Reader.peek).bind statsName? with
  | some id => return some (← readOperation s id none)
  | none => return none

/-! ### Reading one operation -/

/-- Reads one operation of a filter position after those read so far. Behind a field a
negation is followed by what it negates. -/
def readFilterRound (s : Scope) (onlyFilters : Bool) (field : Option Text) (ops : List Operation) :
    Reader (Reader.Round (List Operation)) := do
  let ts ← Reader.look
  let single := reservedField? field ts <|> bracketFilter? ts <|> signFilter? ts
  match single with
  | some id => return .done (ops ++ [← readOperation s id field])
  | none =>
    match if field.isNone then membership? ts else none with
    | some (named, negated) =>
      Reader.skip 2
      let op ← readOperation s .multiExact (some named)
      return .done (ops ++ if negated then [.marker .not, op] else [op])
    | none =>
      match callFilter? onlyFilters ts with
      | some id => return .done (ops ++ [← readOperation s id field])
      | none =>
        match ts with
        | [] =>
          if field.isSome then return .done (ops ++ [← readOperation s .word field])
          else return .done ops
        | first :: _ =>
          if wordStarts first '>' || wordStarts first '<' then
            return .done (ops ++ [← readOperation s .rangeComparison field])
          else if first.isWord "!" || first.isWord "-" then
            Reader.skip 1
            let ops := ops ++ [.marker .not]
            return if field.isSome then .more ops else .done ops
          else
            match ← takeStats? s with
            | some op => return .done (ops ++ [op])
            | none => return .done (ops ++ [← readOperation s .word field])

/-- Reads a filter behind an optional field. -/
def readFilter (s : Scope) (onlyFilters : Bool) (field : Option Text) : Reader (List Operation) :=
  Reader.loop (readFilterRound s onlyFilters field) []

/-- Takes the keyword of a pipe and goes on with `read`. A keyword that is the callee of a
bracket leaves the bracket behind. -/
def afterKeyword {α : Type} (read : Reader α) : Reader α where
  run
    | .bracket callee raw items :: ts =>
      if callee.isEmpty then read.run ts
      else
        let taken := read.run (.bracket [] raw items :: ts)
        (taken.1, if taken.2.length ≤ ts.length then taken.2 else ts)
    | ts => read.run ts.tail
  suffix ts := by
    split
    · rename_i callee raw items ts
      split
      · exact (read.suffix ts).trans (List.suffix_cons _ ts)
      · dsimp only
        split
        · rename_i h
          rcases List.suffix_cons_iff.1 (read.suffix (.bracket [] raw items :: ts)) with e | e
          · rw [e, List.length_cons] at h
            omega
          · exact e.trans (List.suffix_cons _ ts)
        · exact List.suffix_cons _ ts
    · exact (read.suffix _).trans (List.tail_suffix _)

/-- The pipe that a keyword opens, other words for the same pipe included. -/
def pipeOfKeyword? (keyword : Text) : Option OperationId :=
  if keyword == ("eval" : Text) then some .math
  else if keyword == ("keep" : Text) then some .fields
  else OperationId.pipe? keyword

/-- Reads the pipe that the next token names, if it names one. -/
def readPipe? (s : Scope) : Reader (Option (List Operation)) := do
  let keyword : Text :=
    match ← Reader.peek with
    | some (.word w) => w.lower
    | some (.bracket callee _ _) => callee.lower
    | _ => []
  if keyword == ("filter" : Text) || keyword == ("where" : Text) then
    return some (← afterKeyword do readFilter s true (← Reader.takeFieldName s))
  else match pipeOfKeyword? keyword with
    | none => return none
    | some id =>
      if id == .jsonArrayLen || id == .hash || id == .len then
        return some [← readOperation s id none]
      else return some [← afterKeyword (readOperation s id none)]

/-- Reads the next operation; a negation comes as an operation of its own in front of it.
The result is empty only at the end of the tokens. -/
def readNext (s : Scope) (onlyFilters : Bool) : Reader (List Operation) := do
  let field ← Reader.takeFieldName s
  if field.isNone && !onlyFilters then
    match ← readPipe? s with
    | some ops => return ops
    | none => readFilter s onlyFilters field
  else readFilter s onlyFilters field

/-! ### Reading a query -/

/-- Takes the stats functions that follow commas. -/
def takeMoreStats (s : Scope) : Reader (List Operation) :=
  Reader.loop (fun ops => do
    if ← Reader.eatText "," then return .more (ops ++ (← takeStats? s).toList)
    else return .done ops) []

/-- Reads one operation of a segment, with the stats functions that belong to it. An
operation that takes no token gives way to a word filter. -/
def readSegmentRound (s : Scope) (onlyFilters : Bool) (ops : List Operation) :
    Reader (Reader.Round (List Operation)) := do
  let before ← Reader.look
  if before.isEmpty then return .done ops
  let found ← readNext s onlyFilters
  if found.isEmpty then return .done ops
  if (← Reader.look).length == before.length then
    return .more (ops ++ [← readOperation s .word none])
  let endsWithStats := found.getLast?.any fun op => op.id.category == .stats
  let more ← if endsWithStats then takeMoreStats s else pure []
  return .more (ops ++ found ++ more)

/-- The operations of a segment without connectives and comments. -/
def readSegment (s : Scope) (onlyFilters : Bool) (ts : List Token) : List Operation :=
  ((Reader.loop (readSegmentRound s onlyFilters) []).run ts).1

/-- The connective that a word stands for. -/
def connective? (t : Token) : Option OperationId :=
  t.word?.bind fun w =>
    let w := w.lower
    [.and, .or, .not].find? fun id => id.keyword == w

/-- The operations of a run, and whether the run is a connective. Comments come after the
operations. -/
def readRun (s : Scope) (afterConnective : Bool) : List Token → List Operation × Bool
  | [] => ([], afterConnective)
  | first :: rest =>
    match connective? first with
    | some id => ([.marker id], true)
    | none =>
      let ts := first :: rest
      (readSegment s afterConnective (ts.filter fun t => !t.isComment) ++
        (ts.filterMap Token.comment?).map fun c => { id := .comment, params := [.text c] }, false)

/-- The operations of runs one after the other. -/
def readRuns (s : Scope) (afterConnective : Bool) : List (List Token) → List Operation × Bool
  | [] => ([], afterConnective)
  | run :: runs =>
    let here := readRun s afterConnective run
    let more := readRuns s here.2 runs
    (here.1 ++ more.1, more.2)

/-! ### Labels -/

/-- Filters that can be lifted into labels, and the connectives that do not hinder it. -/
def isLabelLike (op : Operation) : Bool :=
  match op.id with
  | .exact => !op.flag 3
  | .regexp => !op.flag 2
  | .and | .not => true
  | _ => false

/-- The labels of label-like operations; `negated` says that a negation is pending. -/
def labelsOf (negated : Bool) : List Operation → List LabelFilter
  | [] => []
  | op :: ops =>
    match op.id with
    | .exact =>
      ⟨op.text 0, if op.flag 2 != negated then "!=" else "=", op.text 1⟩ :: labelsOf false ops
    | .regexp => ⟨op.text 0, if negated then "!~" else "=~", op.text 1⟩ :: labelsOf false ops
    | .not => labelsOf (!negated) ops
    | _ => labelsOf negated ops

/-- The labels lifted from the operations before the first pipe, and the operations that
are left. All of them are lifted or none. -/
def liftLabels (ops : List Operation) : List LabelFilter × List Operation :=
  if !ops.isEmpty && ops.all isLabelLike then (labelsOf false ops, []) else ([], ops)

/-- How a query is read. -/
structure Options where
  scope : Scope := {}
  /-- Lift label filters before the first pipe into labels. -/
  labels : Bool := false

/-- Reads a query text. -/
def read (o : Options) (expr : Text) : Query :=
  match Segment.stages (tokenize expr) with
  | [] => { expr }
  | first :: rest =>
    let start := readRuns o.scope false (Segment.runs first)
    let more := readRuns o.scope start.2 (rest.flatMap Segment.runs)
    let lifted := if o.labels then liftLabels start.1 else ([], start.1)
    { labels := lifted.1, operations := lifted.2 ++ more.1, expr }

/-- The operations of a query text, for a default field. -/
def readOperations (expr defaultField : Text) : List Operation :=
  (read { scope := { defaultField } } expr).operations

/-- Reads one stats function; a token that starts none is passed over. -/
def readStatsRound (s : Scope) (ops : List Operation) :
    Reader (Reader.Round (List Operation)) := do
  let before ← Reader.look
  if before.isEmpty then return .done ops
  let found ← takeStats? s
  if (← Reader.look).length == before.length then Reader.skip 1
  let _ ← Reader.eatText ","
  return .more (ops ++ found.toList)

/-- The functions listed in a `stats` pipe. -/
def readStatsFunctions (text defaultField : Text) : List Operation :=
  ((Reader.loop (readStatsRound { defaultField }) []).run (tokenize text)).1

end Query

end LogQuery
