import LogQuery.Definition

/-!
# Pipes over lists of fields

Pipes that are a keyword alone, pipes that select fields, pipes that map one field to
another, and the removal of colour codes.
-/

namespace LogQuery.Pipe

/-- A pipe that is its keyword and nothing else. -/
def bare (id : OperationId) : Definition where
  id := id
  write op inner := afterPipe inner op.id.keyword

namespace Selection

def write (op : Operation) (inner : Text) : Text :=
  afterPipe inner (op.id.keyword ++ " " ++ op.text 0).trimEnd

/-- Takes one field as it is written; a star may follow a quoted one. -/
def takeField : Reader (Option Text) := do
  match ← Reader.peek with
  | some (.word w) =>
    if w == [','] then return none
    Reader.skip 1
    return some w
  | some (.quote v) =>
    Reader.skip 1
    return some (v ++ flagClause "*" (← Reader.eatWord "*"))
  | _ => return none

def takeFields : Reader (List Text) :=
  Reader.loop (fun fields => do
    match ← takeField with
    | none => return .done fields
    | some field =>
      let fields := fields ++ [field]
      return if ← Reader.eatText "," then .more fields else .done fields) []

def read : Reader (List Param) := do
  return [.text (Text.join ", " (← takeFields))]

/-- The pipes that keep or delete the listed fields. -/
def definition (id : OperationId) : Definition where
  id := id
  params := [.string "Fields"]
  defaults := [.empty]
  write := write
  read _ := read

end Selection

namespace Mapping

/-- Writes the mappings that are not empty. A renaming without any is left out. -/
def write (op : Operation) (inner : Text) : Text :=
  let mappings := (op.params.map Param.toText).filter fun m => !m.isEmpty
  if mappings.isEmpty && op.id == .rename then inner
  else afterPipe inner (op.id.keyword ++ " " ++ Text.join ", " mappings)

/-- Takes one mapping, `source as target` or `source target`. -/
def takeMapping (s : Scope) : Reader (Option Text) := do
  match ← Reader.takeValue s with
  | none => return none
  | some source =>
    let _ ← Reader.eatWord "as"
    let target ← Reader.takeValueD s []
    return some (s.quoteOrEmpty source ++ " as " ++ s.quoteOrEmpty target)

/-- Takes mappings between commas. A comma at the end leaves an empty mapping. -/
def takeMappings (s : Scope) : Reader (List Text) :=
  Reader.loop (fun mappings => do
    if ← Reader.eatText "," then
      return .more (if (← Reader.look).isEmpty then mappings ++ [[]] else mappings)
    else match ← takeMapping s with
      | none => return .done mappings
      | some m =>
        let goesOn := (← Reader.peek).any fun t => t.hasText ","
        return if goesOn then .more (mappings ++ [m]) else .done (mappings ++ [m])) []

def read (s : Scope) : Reader (List Param) := do
  let mappings ← takeMappings s
  return if mappings.isEmpty then [.empty] else mappings.map .text

def copy (s : Scope) : Definition where
  id := .copy
  params := [.strings "Field mapping"]
  defaults := [.text "\"\" as \"\""]
  write := write
  read _ := read s

def rename (s : Scope) : Definition where
  id := .rename
  params := [.strings "Field mapping"]
  defaults := [.empty]
  write := write
  read _ := read s

end Mapping

namespace Decolorize

def write (s : Scope) (op : Operation) (inner : Text) : Text :=
  let field := op.text 0
  afterPipe inner ("decolorize" ++ (if s.isDefaultField field then [] else ' ' :: s.quote field))

def read (s : Scope) : Reader (List Param) := do
  return [.text (← Reader.takeValueD s s.defaultField)]

def definition (s : Scope) : Definition where
  id := .decolorize
  params := [.string "Field"]
  defaults := [.text s.defaultField]
  write := write s
  read _ := read s

end Decolorize

end LogQuery.Pipe
