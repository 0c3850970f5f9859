import LogQuery.Quoting.Place
import LogQuery.Text.Case
import LogQuery.Tree.Basic

/-!
# Reading filter trees

The text is cut into groups in round brackets and the text between them; the text is cut
further into words, of which `and` and `or` are operators and the others are filters.
Neighbours without an operator are joined by `AND`, and an operator that lacks a value
on one side is dropped.

Reading never fails. A bracket without partner is reported with its byte position, and
so is a group past the nesting limit, which is kept as a text.
-/

namespace LogQuery

/-- What was wrong with the brackets of a filter text. -/
inductive TreeError
  | unbalanced (position : Nat)
  | nestingTooDeep
  deriving DecidableEq, Repr

namespace FilterTree

/-- Levels of groups that are read; the text itself is the first. -/
def maxNesting : Nat := 64

/-- The operator between neighbours that have none. -/
def defaultOperator : Text := "AND"

end FilterTree

def TreeError.message : TreeError → Text
  | .unbalanced position =>
    "unbalanced parentheses at position " ++ (Nat.toDigits 10 position : Text)
  | .nestingTooDeep =>
    "filter groups nested deeper than " ++ (Nat.toDigits 10 FilterTree.maxNesting : Text) ++
      " levels"

namespace FilterTree

/-! ### Groups -/

/-- A stretch of the text: text between groups, the inside of a group, or the position of
a bracket without partner. -/
inductive Piece
  | text (t : Text)
  | group (inner : Text)
  | unbalanced (position : Nat)
  deriving DecidableEq, Repr

/-- The text ends in `:in` or `:not_in`, in any case of the ASCII letters. -/
def endsInMembership (t : Text) : Bool :=
  let w : Text := t.trimEnd.map Char.toLower
  w.endsWith ":in" || w.endsWith ":not_in"

/-- A text piece, unless it is blank. -/
def textPiece (t : Text) : List Piece := if t.allBlank then [] else [.text t]

/-- Where a scan for groups stands. -/
structure GroupScan where
  within : Within := .outside
  /-- Brackets open. -/
  depth : Nat := 0
  /-- The outermost open bracket belongs to a call and is part of the text. -/
  call : Bool := false
  /-- The characters of the piece at hand, the latest first. An open group starts with its
  bracket. -/
  held : List Char := []
  /-- The character before. -/
  previous : Option Char := none
  /-- The byte position. -/
  position : Nat := 0
  /-- The byte position of the outermost open bracket. -/
  openedAt : Nat := 0

namespace GroupScan

def buffer (s : GroupScan) : Text := s.held.reverse

/-- Goes past a character and holds it. -/
def hold (s : GroupScan) (c : Char) : GroupScan :=
  { s with held := c :: s.held, previous := some c, position := s.position + c.utf8Size }

/-- An opening bracket right behind other text, or behind `:in`, starts a call. -/
def startsCall (s : GroupScan) : Bool :=
  s.previous.any (fun c => !Text.isBlank c) || endsInMembership s.buffer

/-- An opening bracket outside of quotes. -/
def stepOpen (s : GroupScan) : List Piece × GroupScan :=
  if s.depth > 0 then ([], { s.hold '(' with depth := s.depth + 1 })
  else
    let opened := { s.hold '(' with depth := 1, openedAt := s.position, call := s.startsCall }
    if s.startsCall then ([], opened) else (textPiece s.buffer, { opened with held := ['('] })

/-- A closing bracket outside of quotes. -/
def stepClose (s : GroupScan) : List Piece × GroupScan :=
  match s.depth with
  | 0 => (.unbalanced s.position :: textPiece s.buffer, { s.hold ')' with held := [] })
  | depth + 1 =>
    if depth == 0 && !s.call then
      ([.group s.buffer.tail], { s.hold ')' with depth, held := [] })
    else ([], { s.hold ')' with depth })

/-- Reads one character: the pieces it completes and the scan after it. -/
def step (s : GroupScan) (c : Char) : List Piece × GroupScan :=
  if s.within == .outside && c == '(' then s.stepOpen
  else if s.within == .outside && c == ')' then s.stepClose
  else ([], { s.hold c with within := s.within.step false c })

/-- The pieces that the end of the text completes. -/
def finish (s : GroupScan) : List Piece :=
  (if s.depth > 0 then [.unbalanced s.openedAt] else []) ++ textPiece s.buffer

/-- The pieces of the rest of a text. -/
def run (s : GroupScan) : Text → List Piece
  | [] => s.finish
  | c :: cs => (s.step c).1 ++ run (s.step c).2 cs

end GroupScan

/-- The pieces of a filter text. -/
def pieces (t : Text) : List Piece := GroupScan.run {} t

/-! ### Operators and values -/

/-- What the pieces come down to: operators, and values in between. -/
inductive Item
  | operator (t : Text)
  | value (v : FilterNode)
  deriving Repr

def isOperator (t : Text) : Bool := t.sameFold "and" || t.sameFold "or"

def isNegation (t : Text) : Bool := t.sameFold "not" || t == ['!'] || t == ['-']

/-- A fragment goes on with the value at hand: the two sides of a colon belong together,
and so do a membership test with its list and a negation with its operand. -/
def joins (current next : Text) : Bool :=
  current.endsWith ":" || next.startsWith ":" ||
  (next.startsWith "(" && endsInMembership current) ||
    (isNegation current && !isOperator next)

/-- The items of fragments, given the value at hand. -/
def itemsAfter (current : Option Text) : List Fragment → List Item
  | [] => (current.map fun t => Item.value (.leaf t)).toList
  | f :: fs =>
    match current with
    | some t =>
      if joins t f.text then itemsAfter (some (t ++ f.gap ++ f.text)) fs
      else .value (.leaf t) ::
        if isOperator f.text then .operator f.text :: itemsAfter none fs
        else itemsAfter (some f.text) fs
    | none =>
      if isOperator f.text then .operator f.text :: itemsAfter none fs
      else itemsAfter (some f.text) fs

/-- The items of a text between groups. -/
def textItems (t : Text) : List Item := itemsAfter none (Fragment.ofText filterRules {} t)

/-- Puts items behind a tree, the operator that was read last being `pending`. -/
def attach (t : FilterTree) (pending : Option Text) : List Item → FilterTree
  | [] => t
  | .operator o :: items => attach t (some o) items
  | .value v :: items =>
    let operators :=
      if t.values.isEmpty then t.operators else t.operators ++ [pending.getD defaultOperator]
    attach { values := t.values ++ [v], operators } none items

/-- The tree of a list of items. -/
def ofItems (items : List Item) : FilterTree := attach {} none items

/-! ### Trees -/

/-- A tree with what was wrong with its text. -/
structure Read where
  tree : FilterTree
  errors : List TreeError

/-- The errors among pieces. -/
def pieceErrors (ps : List Piece) : List TreeError :=
  ps.filterMap fun p => match p with
    | .unbalanced position => some (.unbalanced position)
    | _ => none

/-- The items of a piece and the errors in it, given a reader for groups. -/
def pieceItems (group : Text → Item × List TreeError) : Piece → List Item × List TreeError
  | .text t => (textItems t, [])
  | .group inner => ([(group inner).1], (group inner).2)
  | .unbalanced _ => ([], [])

/-- The tree and the errors of pieces, given a reader for groups. -/
def ofPieces (group : Text → Item × List TreeError) (ps : List Piece) : Read :=
  let read := ps.map (pieceItems group)
  { tree := ofItems (read.flatMap Prod.fst), errors := pieceErrors ps ++ read.flatMap Prod.snd }

/-- Reads a text with groups to the given number of levels. Past the last level a group is
kept as a text. -/
def readWithin : Nat → Text → Read
  | 0, t =>
    ofPieces (fun inner => (.value (.leaf ('(' :: (inner ++ [')']))), [.nestingTooDeep])) (pieces t)
  | levels + 1, t =>
    ofPieces (fun inner =>
      let group := readWithin levels inner
      (.value group.tree.toNode, group.errors)) (pieces t)

/-- Reads a filter text. An empty tree is never an error. -/
def read (t : Text) : Read :=
  let result := readWithin (maxNesting - 1) t
  if result.tree.isEmpty then { result with errors := [] } else result

/-- The tree of a filter text. -/
def ofText (t : Text) : FilterTree := (read t).tree

end FilterTree

end LogQuery
