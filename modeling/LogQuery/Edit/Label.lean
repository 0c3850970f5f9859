import LogQuery.Error
import LogQuery.Quoting.Basic
import LogQuery.Quoting.Place

/-!
# Adding and removing label filters

Edits on the text of a query. A label filter is added behind the filters and before the
first pipe; it is found again among the words there, and taken out together with one
neighbouring connective. Brackets that stand glued to a word that is taken out move to
its neighbour.
-/

namespace LogQuery

/-- How an added filter compares its key with its value or values. -/
inductive LabelOperator
  | contains
  | lacks
  | equal
  | notEqual
  | oneOf
  | noneOf
  deriving DecidableEq, Repr

namespace LabelOperator

def all : List LabelOperator := [contains, lacks, equal, notEqual, oneOf, noneOf]

/-- The written form. -/
def text : LabelOperator → Text
  | contains => "AND"
  | lacks => "NOT"
  | equal => "="
  | notEqual => "!="
  | oneOf => "=|"
  | noneOf => "!=|"

/-- Every spelling that is understood. -/
def spellings : LabelOperator → List Text
  | contains => ["AND", "and", ":"]
  | lacks => ["NOT", "not", "!:"]
  | o => [o.text]

/-- Reads an operator; white space at the ends does not count. -/
def ofText (t : Text) : Except Error LabelOperator :=
  match all.find? fun o => o.spellings.contains t.trim with
  | some o => .ok o
  | none => .error (.unknownOperation t.trim)

def isNegated : LabelOperator → Bool
  | lacks | notEqual | noneOf => true
  | _ => false

end LabelOperator

/-- A filter to add to a query. The operators `oneOf` and `noneOf` compare with `values`,
the others with `value`. -/
structure LabelTerm where
  key : Text
  value : Text
  values : List Text := []
  operator : LabelOperator
  deriving DecidableEq, Repr

namespace LabelTerm

/-- Streams are compared as they are written. -/
def isStreamKey (key : Text) : Bool := key.isOneOf ["_stream", "_stream_id"]

/-- The filter of a stream. -/
def streamText (l : LabelTerm) : Text :=
  if l.operator.isNegated then "(! " ++ l.key ++ ": " ++ l.value ++ ")"
  else l.key ++ ":" ++ l.value

/-- The list of values in brackets. -/
def listText (l : LabelTerm) : Text :=
  "in(" ++ Text.join "," (l.values.map Quoting.inDoubleQuotes) ++ ")"

/-- The filter as query text. -/
def text (l : LabelTerm) : Text :=
  if isStreamKey l.key then l.streamText
  else match l.operator with
    | .contains => l.key ++ ":" ++ Quoting.inDoubleQuotes l.value
    | .lacks => "!" ++ l.key ++ ":" ++ Quoting.inDoubleQuotes l.value
    | .equal => l.key ++ ":=" ++ Quoting.inDoubleQuotes l.value
    | .notEqual => l.key ++ ":!=" ++ Quoting.inDoubleQuotes l.value
    | .oneOf => l.key ++ ":" ++ l.listText
    | .noneOf => "!" ++ l.key ++ ":" ++ l.listText

end LabelTerm

namespace LabelEdit

/-- Puts filters in front of pipes. A query of pipes alone starts with a star. -/
def joinHead (head pipes : Text) : Text :=
  if pipes.isEmpty then head.trim
  else if head.allBlank then "* " ++ pipes.trim
  else head.trim ++ " " ++ pipes.trim

/-- Adds a filter behind the filters of a query. -/
def add (l : LabelTerm) (query : Text) : Text :=
  let head := (splitHead query).1
  joinHead (if head.allBlank then l.text else head.trim ++ " AND " ++ l.text) (splitHead query).2

/-- The words of a text; quotes are not cut. -/
def words (t : Text) : List Text := (Fragment.ofText wordRules {} t).map Fragment.text

def isConnective (word : Text) : Bool :=
  word.sameFold "and" || word.sameFold "or" || word.sameFold "not"

/-- What a word compares its key with, if the key is `key`: the text behind the colon
and a comparison sign. Brackets and negations around the filter do not count. -/
def operand? (key word : Text) : Option Text :=
  let inner := Text.dropEndWhile (· == ')') (word.dropWhile (· == '('))
  let bare := inner.dropWhile fun c => c == '!' || c == '-'
  match key.isPrefixOf? bare with
  | some (':' :: '!' :: '=' :: rest) => some rest
  | some (':' :: '=' :: rest) => some rest
  | some (':' :: rest) => some rest
  | _ => none

/-- The word filters `key` by `value`, quoted or not. -/
def isFilter (key value word : Text) : Bool :=
  (operand? key word).any fun rest => rest == value || Quoting.unquote rest == value

/-- Some word before the first pipe filters `key` by `value`. -/
def has (key value query : Text) : Bool := (words (splitHead query).1).any (isFilter key value)

/-- Cuts a list at the first member that satisfies `p`. -/
def cutFirst? (p : Text → Bool) : List Text → Option (List Text × Text × List Text)
  | [] => none
  | w :: ws =>
    if p w then some ([], w, ws)
    else (cutFirst? p ws).map fun (before, found, after) => (w :: before, found, after)

/-- Drops a connective from the start. -/
def dropConnective : List Text → List Text
  | [] => []
  | w :: ws => if isConnective w then ws else w :: ws

/-- Drops a connective from the end. -/
def dropLastConnective (ws : List Text) : List Text := (dropConnective ws.reverse).reverse

/-- Puts brackets in front of the first word. -/
def glueFirst (brackets : Text) : List Text → List Text
  | [] => [brackets]
  | w :: ws => (brackets ++ w) :: ws

/-- Puts brackets behind the last word. Without a word they stand alone, if there are
any. -/
def glueLast (brackets : Text) (ws : List Text) : List Text :=
  match ws.getLast? with
  | some w => ws.dropLast ++ [w ++ brackets]
  | none => if brackets.isEmpty then [] else [brackets]

/-- Takes a word out from between others. Brackets that it opens go to the next word, and
those that it closes to the word before. The connective goes that joined the word to the
side on which the gap is closed. -/
def takeOut (before : List Text) (word : Text) (after : List Text) : List Text :=
  let opens := (word.takeWhile (· == '(')).length
  let closes := (word.reverse.takeWhile (· == ')')).length
  if opens > closes then
    before ++ glueFirst (List.replicate (opens - closes) '(') (dropConnective after)
  else if closes > opens || before.getLast?.any isConnective then
    glueLast (List.replicate (closes - opens) ')') (dropLastConnective before) ++ after
  else before ++ dropConnective after

/-- Takes the first filter of `key` by `value` out of the text before the first pipe. -/
def remove (key value query : Text) : Text :=
  match cutFirst? (isFilter key value) (words (splitHead query).1) with
  | none => query
  | some (before, word, after) =>
    joinHead (Text.join " " (takeOut before word after)) (splitHead query).2

end LabelEdit

end LogQuery
