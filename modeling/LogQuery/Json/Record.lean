import LogQuery.Json.Basic

/-!
# Reading records from JSON

A record is an object with the members by name, or an array with the members in their
order, of which the last ones can be missing. Unknown names are passed over; a known name
must not be repeated. A choice among names is a string, or an object with the name as its
only member and nothing in it.
-/

namespace LogQuery

namespace Json

def text? : Json → Option Text
  | string t => some t
  | _ => none

def bool? : Json → Option Bool
  | bool b => some b
  | _ => none

/-- An unsigned 64-bit integer. -/
def natural? : Json → Option Nat
  | integer n => if n < 0 then none else some n.toNat
  | _ => none

/-- A signed 64-bit integer. -/
def integer? : Json → Option Int
  | integer n => if n ≤ Decimal.wordMax then some n else none
  | _ => none

/-- An array of values that can all be read. -/
def list? {α : Type} (read : Json → Option α) : Json → Option (List α)
  | array items => items.mapM read
  | _ => none

def texts? : Json → Option (List Text) := list? text?

/-- A name among several. -/
def name? : Json → Option Text
  | string t => some t
  | object [(t, null)] => some t
  | _ => none

end Json

/-- The members of a record that were given. -/
structure Record where
  /-- The members were given by their places. -/
  placed : Bool
  members : List (Text × Json)

namespace Record

/-- Some name stands for two members. -/
def hasRepeated : List (Text × Json) → Bool
  | [] => false
  | m :: ms => ms.any (fun other => other.1 == m.1) || hasRepeated ms

/-- The members with these names. -/
def ofJson? (names : List Text) : Json → Option Record
  | .object members =>
    let known := members.filter fun m => names.contains m.1
    if hasRepeated known then none else some ⟨false, known⟩
  | .array items => if items.length ≤ names.length then some ⟨true, names.zip items⟩ else none
  | _ => none

def find? (r : Record) (name : Text) : Option Json :=
  (r.members.find? fun m => m.1 == name).map Prod.snd

/-- A member that must be given. -/
def required {α : Type} (r : Record) (name : Text) (read : Json → Option α) : Option α :=
  (r.find? name).bind read

/-- A member with a value of its own when it is not given. -/
def withDefault {α : Type} (r : Record) (name : Text) (default : α) (read : Json → Option α) :
    Option α :=
  match r.find? name with
  | some j => read j
  | none => some default

/-- A member that can be null. Only an object can leave it out. -/
def optional {α : Type} (r : Record) (name : Text) (read : Json → Option α) :
    Option (Option α) :=
  match r.find? name with
  | some .null => some none
  | some j => (read j).map some
  | none => if r.placed then none else some none

end Record

namespace Json

def ofTexts (ts : List Text) : Json := array (ts.map string)

/-- A value or null. -/
def ofOption {α : Type} (write : α → Json) : Option α → Json
  | some a => write a
  | none => null

/-- Members of an object in their order. -/
abbrev Members := List (Text × Json)

/-- A member that is written unless it is left out. -/
def memberUnless (omitted : Bool) (name : Text) (value : Json) : Members :=
  if omitted then [] else [(name, value)]

end Json

end LogQuery
