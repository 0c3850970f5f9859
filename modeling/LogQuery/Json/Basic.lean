import LogQuery.Binary64.Text

/-!
# JSON values

A value is kept as it was read, an object with its members in order and with repeated
names. Integers that fit a 64-bit word are exact, all other numbers are binary64 numbers.

Some text has the shape of JSON and no value: a string with half of a surrogate pair, a
number beyond the greatest one, or brackets nested too deep. Such a place is kept as
`unreadable`, because it does no harm where nobody looks at it.
-/

namespace LogQuery

inductive Json
  | null
  | bool (b : Bool)
  | integer (n : Int)
  | real (negative : Bool) (x : Binary64)
  | string (t : Text)
  | array (items : List Json)
  | object (members : List (Text × Json))
  | unreadable
  deriving Repr

namespace Json

mutual

/-- Every place of the value could be read. -/
def isSound : Json → Bool
  | unreadable => false
  | array items => allSound items
  | object members => allMembersSound members
  | _ => true

def allSound : List Json → Bool
  | [] => true
  | item :: items => isSound item && allSound items

def allMembersSound : List (Text × Json) → Bool
  | [] => true
  | (_, value) :: members => isSound value && allMembersSound members

end

end Json

end LogQuery
