import LogQuery.Json.Reader
import LogQuery.Json.Record
import LogQuery.Token.Basic

/-!
# Tokens as JSON

A token is an object with its kind under `type` and its parts beside it, or an array with
the kind in front. Within another token a kind can be given by its number as well.
-/

namespace LogQuery.Token

/-- The kinds of tokens. -/
inductive Kind
  | quote
  | word
  | field
  | bracket
  | comment
  deriving DecidableEq, Repr

namespace Kind

def all : List Kind := [quote, word, field, bracket, comment]

def name : Kind → Text
  | quote => "quote"
  | word => "space"
  | field => "colon"
  | bracket => "bracket"
  | comment => "comment"

/-- Reads a kind; a number is understood only inside another token. -/
def ofJson? (nested : Bool) : Json → Option Kind
  | .string t => all.find? fun k => k.name == t
  | .integer n => if nested && 0 ≤ n then all[n.toNat]? else none
  | _ => none

end Kind

/-- A token of a kind with one text. -/
def plainJson (k : Kind) (value : Text) : Json :=
  .object [("type", .string k.name), ("value", .string value)]

mutual

def toJson : Token → Json
  | quote v => plainJson .quote v
  | word v => plainJson .word v
  | field v => plainJson .field v
  | comment v => plainJson .comment v
  | bracket callee raw items =>
    .object [("type", .string Kind.bracket.name), ("raw_value", .string raw),
      ("prefix", .string callee), ("value", .array (itemsJson items))]

def itemsJson : List Token → List Json
  | [] => []
  | t :: ts => toJson t :: itemsJson ts

end

/-- The kind of a token, and the value that holds its parts. -/
def kindAndParts? (nested : Bool) : Json → Option (Kind × Json)
  | .object members =>
    match members.partition fun m => m.1 == ("type" : Text) with
    | ([(_, kind)], parts) => (Kind.ofJson? nested kind).map fun k => (k, .object parts)
    | _ => none
  | .array (kind :: parts) => (Kind.ofJson? nested kind).map fun k => (k, .array parts)
  | _ => none

/-- Reads a token whose brackets nest to the given number of levels. -/
def readJson? : Nat → Bool → Json → Option Token
  | 0, _, _ => none
  | levels + 1, nested, j => do
    let (kind, parts) ← kindAndParts? nested j
    let plain := (Record.ofJson? ["value"] parts).bind fun r => r.required "value" Json.text?
    match kind with
    | .quote => return quote (← plain)
    | .word => return word (← plain)
    | .field => return field (← plain)
    | .comment => return comment (← plain)
    | .bracket =>
      let r ← Record.ofJson? ["raw_value", "prefix", "value"] parts
      let raw ← r.required "raw_value" Json.text?
      let callee ← r.required "prefix" Json.text?
      return bracket callee raw (← r.required "value" (Json.list? (readJson? levels true)))

/-- Reads a token, all of whose parts must be readable. -/
def ofJson? (j : Json) : Option Token :=
  if j.isSound then readJson? (Json.maxNesting + 1) false j else none

def listJson (ts : List Token) : Json := .array (ts.map toJson)

end LogQuery.Token
