import LogQuery.Quoting.Basic
import LogQuery.Quoting.Place

/-!
# Tokens

The lexical units of a query. White space is never a token. A quote keeps its marks, a
bracket keeps its raw text beside the tokens of its interior, and the word in front of
an opening bracket belongs to the bracket as its callee.
-/

namespace LogQuery

inductive Token
  /-- Quoted text with its marks. -/
  | quote (value : Text)
  /-- A bare word, or a separator that stands for itself. -/
  | word (value : Text)
  /-- The text before a colon, without the colon. -/
  | field (value : Text)
  /-- A bracketed group: the word before it, its text with both delimiters, and the
  tokens inside. -/
  | bracket (callee raw : Text) (items : List Token)
  /-- The text of a comment. -/
  | comment (value : Text)
  deriving Repr

/-- A bracketed group seen on its own. -/
structure Bracket where
  callee : Text
  raw : Text
  items : List Token

namespace Bracket

/-- The raw text without its first and last character. -/
def inner (b : Bracket) : Text := b.raw.tail.dropLast

/-- The interior without white space at the ends. -/
def body (b : Bracket) : Text := b.inner.trim

def opensWith (b : Bracket) (c : Char) : Bool := b.raw.head? == some c

def closesWith (b : Bracket) (c : Char) : Bool := b.raw.getLast? == some c

/-- The callee and the raw text, as they stood in the query. -/
def source (b : Bracket) : Text := b.callee ++ b.raw

/-- No word stands directly before the bracket. -/
def isBare (b : Bracket) : Bool := b.callee.isEmpty

def toToken (b : Bracket) : Token := .bracket b.callee b.raw b.items

end Bracket

namespace Token

/-- The text of a token that is not a bracket. -/
def text? : Token → Option Text
  | quote v | word v | field v | comment v => some v
  | bracket .. => none

/-- A token, not a bracket, with exactly this text. -/
def hasText (t : Token) (s : Text) : Bool := t.text? == some s

def word? : Token → Option Text
  | word v => some v
  | _ => none

def field? : Token → Option Text
  | field v => some v
  | _ => none

def comment? : Token → Option Text
  | comment v => some v
  | _ => none

def bracket? : Token → Option Bracket
  | bracket callee raw items => some ⟨callee, raw, items⟩
  | _ => none

/-- Exactly this word. -/
def isWord (t : Token) (w : Text) : Bool := t.word? == some w

/-- This word in any case of its ASCII letters. -/
def isKeyword (t : Token) (w : Text) : Bool := t.word?.any fun v => v.sameFold w

def isQuote : Token → Bool
  | quote _ => true
  | _ => false

def isComment : Token → Bool
  | comment _ => true
  | _ => false

def isBracket : Token → Bool
  | bracket .. => true
  | _ => false

/-- Quotes and words can stand for a value. -/
def isValue : Token → Bool
  | quote _ | word _ => true
  | _ => false

/-- The value a token stands for: a word is its text and a quote what it encloses. -/
def valueWith (mode : EscapeMode) : Token → Text
  | quote v => Quoting.unquoteWith v mode
  | word v => v
  | _ => []

/-- The value with every escape removed. -/
def value (t : Token) : Text := t.valueWith .all

/-- The query text of a token; comments have none. -/
def source? : Token → Option Text
  | quote v | word v => some v
  | field v => some (v ++ ":")
  | bracket callee raw _ => some (callee ++ raw)
  | comment _ => none

/-- The words `and`, `or` and `not` in any case. -/
def isConnective (t : Token) : Bool :=
  t.word?.any fun v => v.lower.isOneOf ["and", "or", "not"]

end Token

end LogQuery
