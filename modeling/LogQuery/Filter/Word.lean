import LogQuery.Definition

/-!
# Word and substring filters

A word filter holds a word, optionally without regard to case, `i(word)`, and
optionally as the start of a longer word, `word*`. A substring filter is written
`*text*`. A star on its own and three stars are words.
-/

namespace LogQuery.Filter

namespace Word

/-- What the first token says about a word filter. -/
structure Head where
  word : Text := []
  anyCase : Bool := false
  /-- A star follows the word inside the bracket. -/
  starred : Bool := false
  /-- The word stands without quotes, so that a star at its end may be a mark. -/
  bare : Bool := false

/-- The head of a word filter inside a bracket. -/
def Head.ofItems (s : Scope) (items : List Token) : Head where
  word := ((items.find? Token.isValue).map s.value).getD []
  starred := items[1]?.any fun t => t.isWord "*"

def Head.ofToken (s : Scope) : Token → Head
  | .field v => { word := v }
  | .quote v => { word := s.unquote v }
  | .word v => { word := v, bare := true }
  | .bracket callee _ items =>
    if callee == ("i" : Text) then
      { Head.ofItems s items with
        anyCase := true, bare := (items.find? Token.isValue).any fun t => t.word?.isSome }
    else if callee.isEmpty then Head.ofItems s items
    else {}
  | .comment _ => {}

/-- A bare word that ends but does not start with a star. -/
def endsInStar (w : Text) : Bool := w.endsWith "*" && !w.startsWith "*"

def write (s : Scope) (op : Operation) (inner : Text) : Text :=
  let word := op.text 1
  let value :=
    if word.startsWith "$" || word == ['*'] then word
    else if word.isEmpty then ("\"\"" : Text)
    else s.quote word
  let value := value ++ flagClause "*" (op.flag 3)
  let value := if op.flag 2 then "i(" ++ value ++ ")" else value
  afterFilter inner (s.fieldMark (op.text 0) ++ value)

def read (s : Scope) (field : Option Text) : Reader (List Param) := do
  let head := ((← Reader.next).map (Head.ofToken s)).getD {}
  let starred := (← Reader.eatWord "*") || head.starred
  let cut := head.bare && !starred && endsInStar head.word
  return [s.fieldParam field, .text (if cut then head.word.dropLast else head.word),
    .flag head.anyCase, .flag (starred || cut)]

def definition (s : Scope) : Definition where
  id := .word
  params := [.string "Field", .string "Word", .boolean "Case insensitive", .boolean "Prefix"]
  defaults := [.text s.defaultField, .empty, .flag false, .flag false]
  write := write s
  read := read s

end Word

namespace Substring

/-- The text without stars at its ends. -/
def core (w : Text) : Text := Text.dropEndWhile (· == '*') (w.dropWhile (· == '*'))

/-- The tokens start with `*text*` or `* "text" *`, the text not being empty. -/
def startsHere : List Token → Bool
  | .word w :: rest =>
    if w == ['*'] then
      match rest with
      | .quote v :: after :: _ => !(Quoting.unquote v).isEmpty && after.isWord "*"
      | _ => false
    else w.startsWith "*" && w.endsWith "*" && !(core w).isEmpty
  | _ => false

def write (s : Scope) (op : Operation) (inner : Text) : Text :=
  afterFilter inner (s.fieldMark (op.text 0) ++ "*" ++ s.quote (op.text 1) ++ "*")

def read (s : Scope) (field : Option Text) : Reader (List Param) := do
  match (← Reader.peek).bind Token.word? with
  | none => return [s.fieldParam field, .empty]
  | some w =>
    Reader.skip 1
    if w == ['*'] then
      let text ← Reader.takeValueD s []
      let _ ← Reader.eatWord "*"
      return [s.fieldParam field, .text text]
    else return [s.fieldParam field, .text (core w)]

def definition (s : Scope) : Definition where
  id := .substring
  params := [.string "Field", .string "Substring"]
  defaults := [.text s.defaultField, .empty]
  write := write s
  read := read s

end Substring

end LogQuery.Filter
