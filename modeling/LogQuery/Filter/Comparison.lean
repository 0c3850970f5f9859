import LogQuery.Definition

/-!
# Comparisons of a field with a text

Regular expressions `~"pattern"`, range comparisons such as `>5`, and exact matches
`="text"` with their negation `!=`.
-/

namespace LogQuery.Filter

/-- Takes an equality sign after `>` or `<`. -/
def takeSign (sign : Text) : Reader Text := do
  if sign == ['>'] || sign == ['<'] then
    if ← Reader.eatWord "=" then return sign ++ "="
  return sign

namespace Regexp

/-- The mark at the start of a pattern that ignores case. -/
def anyCaseMark : Text := "(?i)"

def write (s : Scope) (op : Operation) (inner : Text) : Text :=
  let pattern := flagClause anyCaseMark (op.flag 2) ++ op.text 1
  afterFilter inner (s.fieldMark (op.text 0) ++ "~" ++ s.quoteAlways pattern)

/-- Takes `~ pattern`, or a word that a tilde starts. -/
def takePattern (s : Scope) : Reader Text := do
  if ← Reader.eatWord "~" then Reader.takeValueD s []
  else match (← Reader.peek).bind Token.word? with
    | some ('~' :: pattern) =>
      Reader.skip 1
      return s.unquote pattern
    | _ => return []

def read (s : Scope) (field : Option Text) : Reader (List Param) := do
  let pattern ← takePattern s
  let anyCase := pattern.startsWith anyCaseMark
  return [s.fieldParam field,
    .text (if anyCase then pattern.drop anyCaseMark.length else pattern), .flag anyCase]

def definition (s : Scope) : Definition where
  id := .regexp
  params := [.string "Field", .string "Regexp", .boolean "Case insensitive"]
  defaults := [.text s.defaultField, .empty, .flag false]
  write := write s
  read := read s

end Regexp

namespace RangeComparison

def write (s : Scope) (op : Operation) (inner : Text) : Text :=
  let field := if (op.text 0).isEmpty then s.defaultField else op.text 0
  afterFilter inner (s.quote field ++ ":" ++ op.text 1 ++ op.text 2)

/-- The sign at the start of a word and what follows it. -/
def splitSign? : Text → Option (Text × Text)
  | '>' :: '=' :: rest => some (['>', '='], rest)
  | '<' :: '=' :: rest => some (['<', '='], rest)
  | '>' :: rest => some (['>'], rest)
  | '<' :: rest => some (['<'], rest)
  | '=' :: rest => some (['='], rest)
  | _ => none

def read (s : Scope) (field : Option Text) : Reader (List Param) := do
  match ((← Reader.peek).bind Token.word?).bind splitSign? with
  | none => return [s.fieldParam field, .text ['='], .empty]
  | some (sign, value) =>
    Reader.skip 1
    if value.isEmpty then
      let sign ← takeSign sign
      return [s.fieldParam field, .text sign, .text (← Reader.takeValueD s [])]
    else return [s.fieldParam field, .text sign, .text value]

def definition (s : Scope) : Definition where
  id := .rangeComparison
  params := [.string "Field", .string "Operator", .string "Value"]
  defaults := [.text s.defaultField, .text ['>'], .empty]
  write := write s
  read := read s

end RangeComparison

namespace Exact

def write (s : Scope) (op : Operation) (inner : Text) : Text :=
  let value := op.text 1
  let value := if value.startsWith "$" then value else s.quoteOrEmpty value
  let sign : Text := if op.flag 2 then ['!', '='] else ['=']
  afterFilter inner (s.fieldMark (op.text 0) ++ sign ++ value ++ flagClause "*" (op.flag 3))

/-- Takes a value and says whether a star follows it. A word that is only a star is a
value. -/
def takeStarred (s : Scope) : Reader (Text × Bool) := do
  match ← Reader.peek with
  | some (.quote v) =>
    Reader.skip 1
    return (s.unquote v, ← Reader.eatWord "*")
  | some (.word v) =>
    Reader.skip 1
    return if v.endsWith "*" && v != ['*'] then (v.dropLast, true) else (v, false)
  | _ => return ([], false)

def read (s : Scope) (field : Option Text) : Reader (List Param) := do
  let negated ← Reader.eatWord "!"
  let _ ← Reader.eatWord "="
  let (value, starred) ← takeStarred s
  return [s.fieldParam field, .text value, .flag negated, .flag starred]

def definition (s : Scope) : Definition where
  id := .exact
  params := [.string "Field", .string "Value", .boolean "Not equal", .boolean "Prefix"]
  defaults := [.text s.defaultField, .empty, .flag false, .flag false]
  write := write s
  read := read s

end Exact

end LogQuery.Filter
