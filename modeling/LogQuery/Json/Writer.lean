import LogQuery.Json.Basic

/-!
# Writing JSON

The compact text has no white space, the pretty text has a member or item on each line
and two spaces for each level. Strings escape the double quote, the backslash and the
control characters below the space.
-/

namespace LogQuery.Json

def hexDigit (n : Nat) : Char := Nat.digitChar n

/-- A character inside a string. -/
def escapeChar (c : Char) : Text :=
  if c == '"' then "\\\""
  else if c == '\\' then "\\\\"
  else if c == '\x08' then "\\b"
  else if c == '\x0c' then "\\f"
  else if c == '\n' then "\\n"
  else if c == '\r' then "\\r"
  else if c == '\t' then "\\t"
  else if c < ' ' then "\\u00" ++ [hexDigit (c.toNat / 16), hexDigit (c.toNat % 16)]
  else [c]

def stringText (t : Text) : Text := '"' :: (t.flatMap escapeChar ++ ['"'])

def signed (negative : Bool) (t : Text) : Text := if negative then '-' :: t else t

/-- The text of a value that holds no others. -/
def scalarText : Json → Text
  | bool b => if b then "true" else "false"
  | integer n => Decimal.intText n
  | real negative x => signed negative x.jsonText
  | string t => stringText t
  | _ => "null"

mutual

/-- The text without white space. -/
def text : Json → Text
  | array items => '[' :: (itemsText items ++ [']'])
  | object members => '\x7b' :: (membersText members ++ ['\x7d'])
  | value => scalarText value

def itemsText : List Json → Text
  | [] => []
  | [item] => text item
  | item :: next :: items => text item ++ ',' :: itemsText (next :: items)

def membersText : List (Text × Json) → Text
  | [] => []
  | [(name, value)] => stringText name ++ ':' :: text value
  | (name, value) :: next :: members =>
    stringText name ++ ':' :: (text value ++ ',' :: membersText (next :: members))

end

/-- A line feed and the white space of a level. -/
def newLine (level : Nat) : Text := '\n' :: List.replicate (2 * level) ' '

mutual

/-- The text with a line for each member or item, for a value that stands at a level. -/
def prettyAt (level : Nat) : Json → Text
  | array [] => "[]"
  | array (item :: items) =>
    '[' :: (prettyItems (level + 1) (item :: items) ++ newLine level ++ [']'])
  | object [] => "\x7b\x7d"
  | object (member :: members) =>
    '\x7b' :: (prettyMembers (level + 1) (member :: members) ++ newLine level ++ ['\x7d'])
  | value => scalarText value

def prettyItems (level : Nat) : List Json → Text
  | [] => []
  | [item] => newLine level ++ prettyAt level item
  | item :: next :: items =>
    newLine level ++ prettyAt level item ++ ',' :: prettyItems level (next :: items)

def prettyMembers (level : Nat) : List (Text × Json) → Text
  | [] => []
  | [(name, value)] => newLine level ++ stringText name ++ ": " ++ prettyAt level value
  | (name, value) :: next :: members =>
    newLine level ++ stringText name ++ ": " ++ prettyAt level value ++
      ',' :: prettyMembers level (next :: members)

end

/-- The text over several lines. -/
def prettyText (j : Json) : Text := prettyAt 0 j

end LogQuery.Json
