import LogQuery.Definition

/-!
# Pipes that change field values

Extraction by a pattern, formatting, collapsing of numbers and replacement. Each may
run under a condition written right after its keyword.
-/

namespace LogQuery.Pipe

/-- The clause that names a field unless it is the default one. -/
def fieldClause (s : Scope) (opening field : Text) : Text :=
  if s.isDefaultField field then [] else opening ++ s.quote field

namespace Extract

/-- The flags that may follow a pattern. -/
structure Flags where
  keepFields : Bool := false
  skipEmpty : Bool := false

def write (s : Scope) (op : Operation) (inner : Text) : Text :=
  afterPipe inner (op.id.keyword ++ conditionClause (op.text 4) ++ " " ++
    s.quoteAlways (op.text 1) ++ fieldClause s " from " (op.text 0) ++
    flagClause " keep_original_fields" (op.flag 2) ++
    flagClause " skip_empty_results" (op.flag 3))

def takeFlag (flags : Flags) : Reader (Reader.Round Flags) := do
  if ← Reader.eatWord "keep_original_fields" then return .more { flags with keepFields := true }
  else if ← Reader.eatWord "skip_empty_results" then return .more { flags with skipEmpty := true }
  else return .done flags

def params (field pattern : Text) (flags : Flags) (condition : Text) : List Param :=
  [.text field, .text pattern, .flag flags.keepFields, .flag flags.skipEmpty, .text condition]

/-- Without a quoted pattern nothing after the condition is read. -/
def read (s : Scope) : Reader (List Param) := do
  let condition ← Reader.takeCondition
  match ← Reader.peek with
  | some (.quote pattern) =>
    Reader.skip 1
    let field ←
      if ← Reader.eatWord "from" then Reader.takeValueD s s.defaultField else pure s.defaultField
    let flags ← Reader.rounds takeFlag 2 {}
    return params field (s.unquote pattern) flags condition
  | _ => return params s.defaultField [] {} condition

/-- Extraction by a pattern or a regular expression. -/
def definition (s : Scope) (id : OperationId) : Definition where
  id := id
  params := [.string "From field", .string "Pattern", .boolean "Keep original fields",
    .boolean "Skip empty results", .option "Condition"]
  defaults := params s.defaultField [] {} []
  write := write s
  read _ := read s

end Extract

namespace Format

def write (s : Scope) (op : Operation) (inner : Text) : Text :=
  afterPipe inner ("format" ++ conditionClause (op.text 2) ++ " " ++ s.quoteAlways (op.text 0) ++
    fieldClause s " as " (op.text 1))

def read (s : Scope) : Reader (List Param) := do
  let condition ← Reader.takeCondition
  match ← Reader.peek with
  | some (.quote format) =>
    Reader.skip 1
    let field ←
      if ← Reader.eatWord "as" then Reader.takeValueD s s.defaultField else pure s.defaultField
    return [.text (s.unquote format), .text field, .text condition]
  | _ => return [.empty, .text s.defaultField, .text condition]

def definition (s : Scope) : Definition where
  id := .format
  params := [.string "Format", .string "Result field", .option "Condition"]
  defaults := [.empty, .text s.defaultField, .empty]
  write := write s
  read _ := read s

end Format

namespace CollapseNums

/-- The field whose numbers are collapsed and whether the result is prettified. -/
structure Target where
  field : Text
  prettify : Bool := false

def write (s : Scope) (op : Operation) (inner : Text) : Text :=
  afterPipe inner ("collapse_nums" ++ conditionClause (op.text 2) ++
    fieldClause s " at " (op.text 0) ++ flagClause " prettify" (op.flag 1))

def takeClause (s : Scope) (t : Target) : Reader (Reader.Round Target) := do
  if ← Reader.eatWord "at" then return .more { t with field := ← Reader.takeValueD s t.field }
  else if ← Reader.eatWord "prettify" then return .more { t with prettify := true }
  else return .done t

def read (s : Scope) : Reader (List Param) := do
  let condition ← Reader.takeCondition
  let t ← Reader.rounds (takeClause s) 2 { field := s.defaultField }
  return [.text t.field, .flag t.prettify, .text condition]

def definition (s : Scope) : Definition where
  id := .collapseNums
  params := [.string "Field", .boolean "Prettify", .option "Condition"]
  defaults := [.text s.defaultField, .flag false, .empty]
  write := write s
  read _ := read s

end CollapseNums

namespace Replace

/-- The field to change and the number of replacements in it. -/
structure Target where
  field : Text
  limit : Decimal := .zero

def write (s : Scope) (op : Operation) (inner : Text) : Text :=
  afterPipe inner (op.id.keyword ++ conditionClause (op.text 4) ++ " (" ++
    s.quoteVisible (op.text 1) ++ ", " ++ s.quoteVisible (op.text 2) ++ ")" ++
    fieldClause s " at " (op.text 0) ++ numberClause " limit " (op.positive? 3))

def takeClause (s : Scope) (t : Target) : Reader (Reader.Round Target) := do
  if ← Reader.eatWord "at" then return .more { t with field := ← Reader.takeValueD s t.field }
  else if ← Reader.eatWord "limit" then return .more { t with limit := ← Reader.takeInt }
  else return .done t

/-- The first value of a part between commas, empty when there is none. -/
def partValue (s : Scope) (part : Option (List Token)) : Text :=
  ((part.bind fun ts => ts.find? Token.isValue).map s.value).getD []

def params (t : Target) (old new condition : Text) : List Param :=
  [.text t.field, .text old, .text new, .number t.limit, .text condition]

/-- Without the bracket nothing after the condition is read. -/
def read (s : Scope) : Reader (List Param) := do
  let condition ← Reader.takeCondition
  match ← Reader.takeGroup with
  | none => return params { field := s.defaultField } [] [] condition
  | some b =>
    let parts := Segment.splitAtText "," b.items
    let t ← Reader.rounds (takeClause s) 2 { field := s.defaultField }
    return params t (partValue s parts[0]?) (partValue s parts[1]?) condition

/-- Replacement of a text or of what a regular expression matches. -/
def definition (s : Scope) (id : OperationId) : Definition where
  id := id
  params := [.string "Field", .string "Old", .string "New", .number "Limit", .option "Condition"]
  defaults := params { field := s.defaultField } [] [] []
  write := write s
  read _ := read s

end Replace

end LogQuery.Pipe
