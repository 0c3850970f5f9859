import LogQuery.Operation.Id
import LogQuery.Text.Search

/-!
# Stats functions and lists of all values

Two readings of query text without its tokens: whether a pipe on some line mentions a
stats function, and the correction of a list of all values that is written as a regular
expression.
-/

namespace LogQuery

/-- A stats function is named behind the first bar of the line. -/
def mentionsStats (line : Text) : Bool :=
  (line.splitFirst? (· == '|')).any fun (_, rest) =>
    rest.holdsWord (OperationId.statsIds.map OperationId.keyword) true

/-- Some line of the query has a pipe that mentions a stats function. -/
def hasStatsFunctions (query : Text) : Bool := (query.splitOn (· == '\n')).any mentionsStats

namespace AllValues

/-- The list of all values as a regular expression. -/
def pattern : Text := "in(.*)"

/-- The text behind white space and the pattern. -/
def afterPattern? (t : Text) : Option Text := pattern.isPrefixOf? t.trimStart

/-- The number of characters by which a text is longer than its end. -/
def span (t rest : Text) : Nat := t.length - rest.length

/-- The correction of a field's list, which stands behind a colon. -/
def fieldEdit (t : Text) : Option (Text × Nat) :=
  match t with
  | ':' :: rest => (afterPattern? rest).map fun after => (":in(*)", span t after)
  | _ => none

/-- A quoted text up to its closing mark, and the text behind it, given the text behind
the opening mark. -/
def quotedEnd? : Text → Option (Text × Text)
  | [] => none
  | '"' :: rest => some (['"'], rest)
  | ['\\'] => none
  | '\\' :: c :: rest =>
    if c == '\n' then none else (quotedEnd? rest).map fun (q, after) => ('\\' :: c :: q, after)
  | c :: rest => (quotedEnd? rest).map fun (q, after) => (c :: q, after)

/-- The label at the start of a text when the pattern stands behind it after white space:
the label and the text behind the pattern. -/
def label? (label rest : Text) : Option (Text × Text) :=
  if label.isEmpty || !rest.head?.any Text.isBlank then none
  else (afterPattern? rest).map fun after => (label, after)

/-- A quoted label with the pattern behind it. -/
def quotedLabel? : Text → Option (Text × Text)
  | '"' :: rest => (quotedEnd? rest).bind fun (q, after) => label? ('"' :: q) after
  | _ => none

/-- A run of characters with the pattern behind it. -/
def plainLabel? (t : Text) : Option (Text × Text) :=
  let run := t.takeWhile fun c => !Text.isBlank c && c != ':'
  label? run (t.drop run.length)

/-- The correction of a label's list, which stands behind white space. -/
def labelEdit (t : Text) : Option (Text × Nat) :=
  ((quotedLabel? t).or (plainLabel? t)).map fun (label, after) =>
    (label ++ " in(*)", span t after)

/-- Writes lists of all values with a star. -/
def correct (query : Text) : Text := (query.replaceAll fieldEdit 0).replaceAll labelEdit 0

end AllValues

end LogQuery
