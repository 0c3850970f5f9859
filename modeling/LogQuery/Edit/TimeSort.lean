import LogQuery.Error
import LogQuery.Text.Search

/-!
# Sorting by time

Queries without a sort by time get one at their end. A pipe that sorts or orders by
`_time`, among other fields or alone, is recognised in the text of the query in any case
of its letters.
-/

namespace LogQuery

inductive SortDirection
  | asc
  | desc
  deriving DecidableEq, Repr

namespace SortDirection

def text : SortDirection → Text
  | asc => "asc"
  | desc => "desc"

/-- Reads a direction in any case; white space at the ends does not count. -/
def ofText (t : Text) : Except Error SortDirection :=
  let word := t.trim.lower
  if word.isOneOf ["asc", "ascending"] then .ok asc
  else if word.isOneOf ["desc", "descending"] then .ok desc
  else .error (.unknownOperation word)

end SortDirection

namespace TimeSort

/-- The text behind the opening bracket of a sort pipe, given the text behind its bar. -/
def afterOpening? (t : Text) : Option Text := do
  let start := t.trimStart
  let keyword ← (Text.afterWord? "sort" start).or (Text.afterWord? "order" start)
  let rest ← (Text.afterBlank? keyword).bind (Text.afterWord? "by")
  match rest.trimStart with
  | '(' :: fields => some fields
  | _ => none

/-- The text up to a closing bracket names `_time`. -/
def namesTime (t : Text) : Bool :=
  let fields := t.takeWhile (· != ')')
  fields.length < t.length && Text.holdsWord ["_time"] true fields

/-- A pipe of the query sorts by time. -/
def isIn : Text → Bool
  | [] => false
  | c :: cs => (c == '|' && (afterOpening? cs).any namesTime) || isIn cs

/-- Adds a sort by time unless there is one. -/
def add (direction : SortDirection) (query : Text) : Text :=
  if isIn query then query else query.trimEnd ++ " | sort by (_time) " ++ direction.text

end TimeSort

end LogQuery
