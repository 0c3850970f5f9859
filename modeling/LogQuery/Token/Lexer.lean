import LogQuery.Quoting.Within
import LogQuery.Token.Basic

/-!
# Reading text into tokens

A scan passes over the text once, holding back the characters of the token it is in.
Its mode says what the next character may do: between marks, inside a comment and
inside a bracket most characters are only held. A bracket is first captured as raw
text; its interior is then scanned in the same way, down to a fixed nesting depth.

Reading never fails. At the end of the text an open quote is closed with its own mark,
and an open bracket or comment is taken as far as it goes.
-/

namespace LogQuery

namespace Lexer

/-- Characters that end a word. All but the white space ones are words themselves. -/
def isBreak (c : Char) : Bool :=
  c == ',' || c == '|' || c == '=' || c == ' ' || c == '\n' || c == '\r' || c == '!'

/-- Where a scan stands. A bracket's depth counts the brackets open inside it, quoted
ones left out. -/
inductive Mode
  | plain
  | escaped
  | quoted (mark : QuoteMark)
  | quotedEscaped (mark : QuoteMark)
  | comment
  | bracket (depth : Nat) (within : Within)
  deriving DecidableEq, Repr

/-- A token whose bracket interiors have not been read. `closed` tells a bracket with a
closing delimiter from one cut off by the end of the text. -/
inductive Lexeme
  | quote (value : Text)
  | word (value : Text)
  | field (value : Text)
  | bracket (callee raw : Text) (closed : Bool)
  | comment (value : Text)
  deriving DecidableEq, Repr

/-- The mode, and the characters held back, the latest first. -/
structure Scan where
  mode : Mode
  held : List Char

namespace Scan

def start : Scan := ⟨.plain, []⟩

/-- The characters held back, in order. -/
def buffer (s : Scan) : Text := s.held.reverse

/-- Holds one more character and goes on in `mode`. -/
def hold (s : Scan) (c : Char) (mode : Mode) : Scan := ⟨mode, c :: s.held⟩

/-- The buffer as a word, unless it is blank. -/
def word (s : Scan) : List Lexeme :=
  let w := s.buffer.trim
  if w.isEmpty then [] else [.word w]

/-- The buffer as a comment, unless it is blank. -/
def comment (s : Scan) : List Lexeme :=
  let w := s.buffer.trim
  if w.isEmpty then [] else [.comment w]

/-- The buffer as a bracket; the callee ends at the first opening character. -/
def bracket (s : Scan) (closed : Bool) : Lexeme :=
  .bracket (s.buffer.takeWhile (!isOpener ·)) (s.buffer.dropWhile (!isOpener ·)) closed

/-- A character outside quotes, brackets and comments. -/
def stepPlain (s : Scan) (c : Char) : List Lexeme × Scan :=
  match QuoteMark.ofChar? c with
  | some m => (s.word, ⟨.quoted m, [c]⟩)
  | none =>
    if c == '\\' then ([], s.hold c .escaped)
    else if c == '#' then (s.word, ⟨.comment, []⟩)
    else if c == ':' then ([.field s.buffer], start)
    else if isOpener c then ([], s.hold c (.bracket 0 .outside))
    else if c == '-' && s.buffer.allBlank then ([.word ['-']], start)
    else if isBreak c then (s.word ++ (if c.isWhitespace then [] else [.word [c]]), start)
    else ([], s.hold c .plain)

/-- A character between two marks. Backticks know no escapes. -/
def stepQuoted (s : Scan) (m : QuoteMark) (c : Char) : List Lexeme × Scan :=
  if c == m.char then ([.quote (s.hold c .plain).buffer], start)
  else if c == '\\' && m != .backtick then ([], s.hold c (.quotedEscaped m))
  else ([], s.hold c (.quoted m))

/-- A character inside a bracket. Any closing character closes any open bracket. -/
def stepBracket (s : Scan) (depth : Nat) (within : Within) (c : Char) : List Lexeme × Scan :=
  if within == .outside && isCloser c then
    match depth with
    | 0 => ([(s.hold c .plain).bracket true], start)
    | depth + 1 => ([], s.hold c (.bracket depth .outside))
  else if within == .outside && isOpener c then ([], s.hold c (.bracket (depth + 1) .outside))
  else ([], s.hold c (.bracket depth (within.step true c)))

/-- Reads one character: the lexemes it completes and the scan after it. -/
def step (s : Scan) (c : Char) : List Lexeme × Scan :=
  match s.mode with
  | .plain => s.stepPlain c
  | .escaped => ([], s.hold c .plain)
  | .quoted m => s.stepQuoted m c
  | .quotedEscaped m => ([], s.hold c (.quoted m))
  | .comment => if c == '\n' then (s.comment, start) else ([], s.hold c .comment)
  | .bracket depth within => s.stepBracket depth within c

/-- The lexeme that the end of the text completes. -/
def finish (s : Scan) : List Lexeme :=
  match s.mode with
  | .plain | .escaped => s.word
  | .quoted m | .quotedEscaped m => [.quote (s.hold m.char .plain).buffer]
  | .comment => s.comment
  | .bracket .. => [s.bracket false]

/-- The lexemes of the rest of a text. -/
def run (s : Scan) : Text → List Lexeme
  | [] => s.finish
  | c :: cs => (s.step c).1 ++ run (s.step c).2 cs

end Scan

/-- The lexemes of a text, white space at its ends left out. -/
def lexemes (t : Text) : List Lexeme := Scan.start.run t.trim

namespace Lexeme

/-- The text between the delimiters of a bracket. -/
def interior (raw : Text) (closed : Bool) : Text :=
  if closed then raw.tail.dropLast else raw.tail

/-- The token of a lexeme, given a reader for bracket interiors. -/
def toToken (read : Text → List Token) : Lexeme → Token
  | quote v => .quote v
  | word v => .word v
  | field v => .field v
  | comment v => .comment v
  | bracket callee raw closed => .bracket callee raw (read (interior raw closed))

end Lexeme

/-- The tokens of a text with brackets read to the given number of levels. Past the last
level a bracket has its raw text only. -/
def tokensWithin : Nat → Text → List Token
  | 0, _ => []
  | levels + 1, t => (lexemes t).map (Lexeme.toToken (tokensWithin levels))

/-- Levels of brackets that are read; the text itself is the first. -/
def maxNesting : Nat := 64

end Lexer

/-- The tokens of a query text. -/
def tokenize (t : Text) : List Token := Lexer.tokensWithin Lexer.maxNesting t

end LogQuery
