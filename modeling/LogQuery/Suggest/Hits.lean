import LogQuery.Binary64.Read
import LogQuery.Text.Word

/-!
# Hits and their order

A store answers with values and how often they occur. Hits are listed in the order of
their numbers when every value is a number, and in the order of their texts otherwise; for
dates of one format that is the order of time. Empty values are dropped.
-/

namespace LogQuery

/-- A name or value with its number of entries. -/
structure Hit where
  value : Text
  count : Nat
  deriving DecidableEq, Repr

/-- What a value looks like. -/
inductive HitKind
  | number
  | date
  | text
  deriving DecidableEq, Repr

namespace HitKind

/-- Takes a number of decimal digits off the start. -/
def afterDigits? : Nat → Text → Option Text
  | 0, t => some t
  | _ + 1, [] => none
  | n + 1, c :: cs => if Text.isDecimalDigit c then afterDigits? n cs else none

/-- Takes a character off the start. -/
def afterChar? (c : Char) : Text → Option Text
  | [] => none
  | d :: ds => if c == d then some ds else none

/-- Takes a day off the start: year, month and day of the month. -/
def afterDay? (t : Text) : Option Text := do
  let month ← afterChar? '-' (← afterDigits? 4 t)
  let day ← afterChar? '-' (← afterDigits? 2 month)
  afterDigits? 2 day

/-- Takes two groups of two digits with a colon between off the start. The colon can be
left out if `optional` says so. -/
def afterPair? (optional : Bool) (t : Text) : Option Text := do
  let rest ← afterDigits? 2 t
  match afterChar? ':' rest with
  | some second => afterDigits? 2 second
  | none => if optional then afterDigits? 2 rest else none

/-- Takes a fraction of a second off the start, if there is one. -/
def afterFraction (t : Text) : Text :=
  match t with
  | '.' :: c :: cs => if Text.isDecimalDigit c then cs.dropWhile Text.isDecimalDigit else t
  | _ => t

/-- Takes seconds off the start, if there are any. -/
def afterSeconds (t : Text) : Text :=
  match (afterChar? ':' t).bind (afterDigits? 2) with
  | some rest => afterFraction rest
  | none => t

/-- A time zone, or nothing. -/
def isZone : Text → Bool
  | [] => true
  | ['Z'] => true
  | c :: cs => (c == '+' || c == '-') && afterPair? true cs == some []

/-- A day, alone or with a time of day, which can have a zone. -/
def isDate (t : Text) : Bool :=
  match afterDay? t with
  | none => false
  | some [] => true
  | some (c :: cs) =>
    (c == 'T' || c == ' ') && (afterPair? false cs).any fun rest => isZone (afterSeconds rest)

/-- The kind of a value; white space at the ends does not count. -/
def ofValue (v : Text) : HitKind :=
  if (Binary64.Reading.ofText? v.trim).isSome then number
  else if isDate v.trim then date
  else text

end HitKind

namespace Hit

/-- The kind that all hits share, else text. -/
def commonKind : List Hit → HitKind
  | [] => .text
  | h :: hs =>
    if hs.all fun other => HitKind.ofValue other.value == HitKind.ofValue h.value then
      HitKind.ofValue h.value
    else .text

/-- Smaller as a number. -/
def numberBelow (a b : Hit) : Bool :=
  match Binary64.Reading.ofText? a.value.trim, Binary64.Reading.ofText? b.value.trim with
  | some x, some y => x.isBelow y
  | _, _ => false

/-- Smaller as a text, by code points. -/
def textBelow (a b : Hit) : Bool := !b.value.le a.value

/-- The order in which hits of a kind are listed. -/
def isBelow : HitKind → Hit → Hit → Bool
  | .number => numberBelow
  | _ => textBelow

/-- Puts a hit into a list that is sorted from the last to the first: before all that are
not above it. -/
def insert (below : Hit → Hit → Bool) (h : Hit) : List Hit → List Hit
  | [] => [h]
  | other :: rest => if below h other then other :: insert below h rest else h :: other :: rest

/-- Sorts hits; those that are not told apart keep their order. -/
def sortBy (below : Hit → Hit → Bool) (hits : List Hit) : List Hit :=
  (hits.foldl (fun sorted h => insert below h sorted) []).reverse

/-- Drops empty values and sorts the others by what they look like. -/
def sort (hits : List Hit) : List Hit :=
  let kept := hits.filter fun h => !h.value.isEmpty
  sortBy (isBelow (commonKind kept)) kept

end Hit

end LogQuery
