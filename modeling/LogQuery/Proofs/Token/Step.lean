import LogQuery.Token.Lexer
import Mathlib.Tactic.SplitIfs

/-!
# What one character does to a scan

A character is held back, or it completes what is held back. In the latter case it is a quote
mark, a number sign, a colon, a minus, a separator, the mark or the closing delimiter of what it
completes, or the end of a comment. Whatever holds in each of these cases holds of every step.
-/

namespace LogQuery.Lexer.Scan

/-- What a step can result in. -/
inductive Takes (s : Scan) (c : Char) : List Lexeme × Scan → Prop
  /-- The character is held back. -/
  | hold (mode : Mode) (text : s.mode = .plain → c ≠ '#') : Takes s c ([], s.hold c mode)
  /-- A quote begins. -/
  | mark (m : QuoteMark) (plain : s.mode = .plain) (mark : c = m.char) :
      Takes s c (s.word, ⟨.quoted m, [c]⟩)
  /-- A comment begins. -/
  | hash (plain : s.mode = .plain) (hash : c = '#') : Takes s c (s.word, ⟨.comment, []⟩)
  /-- A field ends. -/
  | colon (plain : s.mode = .plain) (colon : c = ':') : Takes s c ([.field s.buffer], start)
  /-- A minus with no word in front of it. -/
  | minus (plain : s.mode = .plain) (minus : c = '-') (blank : s.buffer.allBlank = true) :
      Takes s c ([.word ['-']], start)
  /-- White space ends a word. -/
  | space (plain : s.mode = .plain) (ends : isBreak c = true) (space : c.isWhitespace = true) :
      Takes s c (s.word, start)
  /-- A separator ends a word and is one itself. -/
  | separator (plain : s.mode = .plain) (ends : isBreak c = true)
      (visible : c.isWhitespace = false) : Takes s c (s.word ++ [.word [c]], start)
  /-- A quote ends. -/
  | quote (m : QuoteMark) (quoted : s.mode = .quoted m) (mark : c = m.char) :
      Takes s c ([.quote (s.hold c .plain).buffer], start)
  /-- A comment ends. -/
  | newline (inside : s.mode = .comment) (newline : c = '\n') : Takes s c (s.comment, start)
  /-- The outermost bracket ends. -/
  | bracket (inside : s.mode = .bracket 0 .outside) (closer : isCloser c = true) :
      Takes s c ([(s.hold c .plain).bracket true], start)

theorem takes_stepPlain (s : Scan) (c : Char) (plain : s.mode = .plain) :
    s.Takes c (s.stepPlain c) := by
  rw [stepPlain]
  split
  · next m mark => exact .mark m plain (QuoteMark.ofChar?_eq_some_iff.mp mark)
  split_ifs with slash hash colon opener minus separator space
  · exact .hold _ fun _ => by
      rintro rfl
      contradiction
  · exact .hash plain (eq_of_beq hash)
  · exact .colon plain (eq_of_beq colon)
  · exact .hold _ fun _ => by simpa using hash
  · obtain ⟨minus, blank⟩ := Bool.and_eq_true_iff.mp minus
    exact .minus plain (eq_of_beq minus) blank
  · rw [List.append_nil]
    exact .space plain separator space
  · exact .separator plain separator (by simpa using space)
  · exact .hold _ fun _ => by simpa using hash

theorem takes_stepQuoted (s : Scan) (c : Char) {m : QuoteMark} (quoted : s.mode = .quoted m) :
    s.Takes c (s.stepQuoted m c) := by
  have inside (mode : Mode) : s.Takes c ([], s.hold c mode) :=
    .hold mode fun plain => by simp [quoted] at plain
  rw [stepQuoted]
  split_ifs with closing
  · exact .quote m quoted (eq_of_beq closing)
  · exact inside _
  · exact inside _

theorem takes_stepBracket (s : Scan) (c : Char) {depth : Nat} {within : Within}
    (bracket : s.mode = .bracket depth within) : s.Takes c (s.stepBracket depth within c) := by
  have inside (mode : Mode) : s.Takes c ([], s.hold c mode) :=
    .hold mode fun plain => by simp [bracket] at plain
  unfold stepBracket
  split_ifs with closing
  · obtain ⟨outside, closer⟩ := Bool.and_eq_true_iff.mp closing
    cases depth with
    | zero => exact .bracket (by rw [bracket, eq_of_beq outside]) closer
    | succ depth => exact inside _
  · exact inside _
  · exact inside _

/-- Every step is of one of these kinds. -/
theorem takes_step (s : Scan) (c : Char) : s.Takes c (s.step c) := by
  rw [step]
  cases mode : s.mode with
  | plain => exact takes_stepPlain s c mode
  | escaped => exact .hold _ fun plain => by simp [mode] at plain
  | quoted m => exact takes_stepQuoted s c mode
  | quotedEscaped m => exact .hold _ fun plain => by simp [mode] at plain
  | comment =>
      dsimp only
      split_ifs with newline
      · exact .newline mode (eq_of_beq newline)
      · exact .hold _ fun plain => by simp [mode] at plain
  | bracket depth within => exact takes_stepBracket s c mode

end LogQuery.Lexer.Scan
