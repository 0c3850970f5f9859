import LogQuery.Token.Lexer

/-!
# Stream selectors

A selector compares a label with values: `label="a"` with one, `label in (a, b)` with
several, and `label=~"a|b"` with the alternatives of a regular expression. Each form has
a negation. The form with a bracket is read from its tokens, the others by the first
operator in the text.
-/

namespace LogQuery

/-- A label with the values it is to have, or not to have. -/
structure StreamSelector where
  label : Text := []
  negated : Bool := false
  values : List Text := []
  deriving DecidableEq, Repr

namespace StreamSelector

/-- The operators that negate. -/
def negations : List Text := ["not_in", "!~", "!="]

/-- The operator at the start of a text, white space left out, and the text behind it. -/
def operatorAt? : Text → Option (Text × Text)
  | '!' :: '=' :: rest => some ("!=", rest)
  | '!' :: '~' :: rest => some ("!~", rest)
  | '=' :: rest =>
    match rest.dropWhile Text.isBlank with
    | '~' :: pattern => some ("=~", pattern)
    | _ => some (['='], rest)
  | ' ' :: 'i' :: 'n' :: ' ' :: rest => some ("in", rest)
  | ' ' :: 'n' :: 'o' :: 't' :: '_' :: 'i' :: 'n' :: ' ' :: rest => some ("not_in", rest)
  | _ => none

/-- The text before the first operator, the operator, and the text behind it. -/
def splitOperator? : Text → Option (Text × Text × Text)
  | [] => none
  | c :: cs =>
    match operatorAt? (c :: cs) with
    | some (operator, rest) => some ([], operator, rest)
    | none => (splitOperator? cs).map fun (before, found) => (c :: before, found)

/-- The alternatives of a regular expression, cut at every bar that is not escaped. -/
def cutAlternatives : Text → List Text
  | [] => [[]]
  | ['\\'] => [['\\']]
  | '\\' :: c :: cs =>
    match cutAlternatives cs with
    | [] => [['\\', c]]
    | part :: parts => ('\\' :: c :: part) :: parts
  | c :: cs =>
    if c == '|' then [] :: cutAlternatives cs
    else match cutAlternatives cs with
      | [] => [[c]]
      | part :: parts => (c :: part) :: parts

/-- Takes the backslash away from every escaped character but a line feed. -/
def unescapeAny : Text → Text
  | [] => []
  | [c] => [c]
  | b :: c :: cs =>
    if b = '\\' ∧ c ≠ '\n' then c :: unescapeAny cs else b :: unescapeAny (c :: cs)

/-- The values that a pattern of alternatives stands for. -/
def alternatives (pattern : Text) : List Text :=
  ((cutAlternatives pattern).filter fun v => !v.isEmpty).map unescapeAny

/-- The value at the start of a text, if there is one. -/
def firstValue (t : Text) : List Text :=
  (((tokenize t).head?.filter Token.isValue).map Token.value).toList

/-- Reads the form that ends in a bracket. -/
def ofTokens (ts : List Token) (last : Bracket) : StreamSelector :=
  let operator :=
    if ts.length = 2 then last.callee else ((ts[1]?.bind Token.text?).getD [])
  { label := ((ts.head?.filter Token.isValue).map Token.value).getD []
    negated := negations.contains operator
    values := (last.items.filter fun t => t.isValue && !t.hasText ",").map Token.value }

/-- Reads the forms with an operator between label and value. A text without operator is
a label. -/
def ofOperator (t : Text) : StreamSelector :=
  match splitOperator? t with
  | none => { label := t.trim }
  | some (label, operator, rest) =>
    { label := label.trim
      negated := negations.contains operator
      values :=
        if operator.contains '~' then alternatives (Quoting.unquote rest.trim)
        else firstValue rest.trim }

/-- Reads a selector. -/
def ofText (t : Text) : StreamSelector :=
  let ts := tokenize t
  match ts.getLast? with
  | none => {}
  | some last =>
    match last.bracket? with
    | some b => ofTokens ts b
    | none => ofOperator t

/-- Writes a selector; several values are listed in a bracket. -/
def text (s : StreamSelector) : Text :=
  let sign : Text := if s.negated then ['!', '='] else ['=']
  match s.values.map Quoting.quote with
  | [] => s.label ++ sign
  | [value] => s.label ++ sign ++ value
  | values =>
    let word : Text := if s.negated then "not_in" else "in"
    s.label ++ " " ++ word ++ " (" ++ Text.join "," values ++ ")"

end StreamSelector

end LogQuery
