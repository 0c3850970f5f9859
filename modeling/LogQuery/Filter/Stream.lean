import LogQuery.Definition

/-!
# Stream filters

A stream filter holds label selectors between braces, one parameter each; a stream id
filter holds an identifier as it is written.
-/

namespace LogQuery.Filter

namespace Stream

/-- The selectors between the braces, trimmed. -/
def selectors (inner : Text) : List Text :=
  (Place.cutAt selectorRules (· == ',') {} inner).map Text.trim

def write (op : Operation) (inner : Text) : Text :=
  afterFilter inner ("\x7b" ++ Text.join ", " (op.params.map Param.toText) ++ "\x7d")

def read : Reader (List Param) := do
  match (← Reader.peek).bind Token.bracket? with
  | none => return [.empty]
  | some b =>
    Reader.skip 1
    let parts := selectors b.inner
    return if parts.all List.isEmpty then [.empty] else parts.map .text

def definition : Definition where
  id := .stream
  params := [.strings "Selector"]
  defaults := [.empty]
  write := write
  read _ := read

end Stream

namespace StreamId

def write (op : Operation) (inner : Text) : Text := afterFilter inner ("_stream_id:" ++ op.text 0)

def read (s : Scope) : Reader (List Param) := do
  match (← Reader.peek).bind Token.bracket? with
  | some b =>
    Reader.skip 1
    return [.text b.source]
  | none => return [.text (← Reader.takeValueD s [])]

def definition (s : Scope) : Definition where
  id := .streamId
  params := [.string "Stream ID"]
  defaults := [.empty]
  write := write
  read _ := read s

end StreamId

end LogQuery.Filter
