import LogQuery.Json.Number

/-!
# Reading JSON

A text is read as one value with white space around it, or not at all. Brackets nest to a
limit; what stands in deeper ones is still checked, but has no value. The readers carry a
bound on their steps, which the length of the text always meets.
-/

namespace LogQuery.Json

/-- The nesting of brackets up to which values are kept. -/
def maxNesting : Nat := 127

def isSpace (c : Char) : Bool := c == ' ' || c == '\n' || c == '\t' || c == '\r'

def skipSpace (t : Text) : Text := t.dropWhile isSpace

/-! ### Strings -/

/-- A part of a string: a character, or a 16-bit unit written by its number. -/
inductive StringPart
  | char (c : Char)
  | unit (n : Nat)
  deriving DecidableEq, Repr

/-- The value of a hexadecimal digit. -/
def hexValue? (c : Char) : Option Nat :=
  if c.isDigit then some (c.toNat - '0'.toNat)
  else if 'a' ≤ c && c ≤ 'f' then some (c.toNat - 'a'.toNat + 10)
  else if 'A' ≤ c && c ≤ 'F' then some (c.toNat - 'A'.toNat + 10)
  else none

/-- The number that four hexadecimal digits stand for. -/
def unit? (a b c d : Char) : Option Nat := do
  let high := (← hexValue? a) * 16 + (← hexValue? b)
  let low := (← hexValue? c) * 16 + (← hexValue? d)
  return high * 256 + low

/-- The character that a letter behind a backslash stands for. -/
def escaped? (c : Char) : Option Char :=
  match c with
  | '"' | '\\' | '/' => some c
  | 'b' => some '\x08'
  | 'f' => some '\x0c'
  | 'n' => some '\n'
  | 'r' => some '\r'
  | 't' => some '\t'
  | _ => none

/-- The parts of a string up to its closing quote, and the text behind it. -/
def stringParts? : Text → Option (List StringPart × Text)
  | [] => none
  | '"' :: rest => some ([], rest)
  | '\\' :: 'u' :: a :: b :: c :: d :: rest =>
    (unit? a b c d).bind fun n =>
      (stringParts? rest).map fun (parts, after) => (.unit n :: parts, after)
  | '\\' :: c :: rest =>
    (escaped? c).bind fun e =>
      (stringParts? rest).map fun (parts, after) => (.char e :: parts, after)
  | c :: rest =>
    if c < ' ' || c == '\\' then none
    else (stringParts? rest).map fun (parts, after) => (.char c :: parts, after)

def isHighSurrogate (n : Nat) : Bool := 0xd800 ≤ n && n < 0xdc00

def isLowSurrogate (n : Nat) : Bool := 0xdc00 ≤ n && n < 0xe000

/-- The text of the parts of a string. Half a surrogate pair has none. -/
def joinParts? : List StringPart → Option Text
  | [] => some []
  | .char c :: parts => (joinParts? parts).map (c :: ·)
  | .unit n :: parts =>
    if isLowSurrogate n then none
    else if isHighSurrogate n then
      match parts with
      | .unit m :: rest =>
        if isLowSurrogate m then
          (joinParts? rest).map (Char.ofNat (0x10000 + (n - 0xd800) * 0x400 + (m - 0xdc00)) :: ·)
        else none
      | _ => none
    else (joinParts? parts).map (Char.ofNat n :: ·)

/-! ### Values -/

/-- Takes a word off the start of a text. -/
def afterWord? (word t : Text) : Option Text := word.isPrefixOf? t

/-- A value that holds no others, and the text behind it. -/
def scalar? : Text → Option (Json × Text)
  | '"' :: rest => (stringParts? rest).map fun (parts, after) =>
    (match joinParts? parts with
      | some t => .string t
      | none => .unreadable, after)
  | 'n' :: rest => (afterWord? "ull" rest).map fun after => (null, after)
  | 't' :: rest => (afterWord? "rue" rest).map fun after => (bool true, after)
  | 'f' :: rest => (afterWord? "alse" rest).map fun after => (bool false, after)
  | t => (NumberParts.read? t).map fun (parts, after) => (parts.value, after)

/-- The name of a member up to its colon, and the text behind it. -/
def memberName? (t : Text) : Option (Option Text × Text) :=
  match skipSpace t with
  | '"' :: rest =>
    (stringParts? rest).bind fun (parts, after) =>
      match skipSpace after with
      | ':' :: value => some (joinParts? parts, value)
      | _ => none
  | _ => none

/-- An object with these members, if all their names could be read. -/
def ofMembers (members : List (Option Text × Json)) : Json :=
  match members.mapM fun (name, value) => name.map fun n => (n, value) with
  | some named => object named
  | none => unreadable

/-- A value that stands inside `depth` brackets, the innermost its own. -/
def within (depth : Nat) (value : Json) : Json := if depth ≤ maxNesting then value else unreadable

mutual

/-- Reads a value inside `depth` brackets, and gives the text behind it. -/
def readValue (depth : Nat) : Nat → Text → Option (Json × Text)
  | 0, _ => none
  | steps + 1, t =>
    match skipSpace t with
    | '[' :: rest =>
      match skipSpace rest with
      | ']' :: after => some (within (depth + 1) (array []), after)
      | _ => (readItems (depth + 1) steps rest).map fun (items, after) =>
        (within (depth + 1) (array items), after)
    | '\x7b' :: rest =>
      match skipSpace rest with
      | '\x7d' :: after => some (within (depth + 1) (object []), after)
      | _ => (readMembers (depth + 1) steps rest).map fun (members, after) =>
        (within (depth + 1) (ofMembers members), after)
    | start => scalar? start

/-- Reads the items of an array up to its closing bracket. -/
def readItems (depth : Nat) : Nat → Text → Option (List Json × Text)
  | 0, _ => none
  | steps + 1, t =>
    (readValue depth steps t).bind fun (item, after) =>
      match skipSpace after with
      | ',' :: rest => (readItems depth steps rest).map fun (items, last) => (item :: items, last)
      | ']' :: rest => some ([item], rest)
      | _ => none

/-- Reads the members of an object up to its closing bracket. -/
def readMembers (depth : Nat) : Nat → Text → Option (List (Option Text × Json) × Text)
  | 0, _ => none
  | steps + 1, t =>
    (memberName? t).bind fun (name, start) =>
      (readValue depth steps start).bind fun (value, after) =>
        match skipSpace after with
        | ',' :: rest =>
          (readMembers depth steps rest).map fun (members, last) => ((name, value) :: members, last)
        | '\x7d' :: rest => some ([(name, value)], rest)
        | _ => none

end

/-- Reads a text as one value. -/
def ofText? (t : Text) : Option Json :=
  match readValue 0 (2 * t.length + 1) t with
  | some (value, rest) => if (skipSpace rest).isEmpty then some value else none
  | none => none

end LogQuery.Json
