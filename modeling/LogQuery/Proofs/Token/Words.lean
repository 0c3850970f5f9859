import LogQuery.Proofs.Text.Words
import LogQuery.Proofs.Token.Shape

/-!
# Reading keeps every word

A text is cut into tokens at quote marks, brackets, separators and white space, and at number
signs, none of which is part of a word. So the words of the tokens, taken one token after the
other, are the words of the text. A bracket starts with its delimiter as well, so no word runs from
its callee into it.
-/

namespace LogQuery

open Text (wordRuns isWordChar)

namespace Lexer

theorem isWordChar_of_isBreak {c : Char} (h : isBreak c = true) : isWordChar c = false := by
  simp only [isBreak, Bool.or_eq_true, beq_iff_eq] at h
  rcases h with (((((rfl | rfl) | rfl) | rfl) | rfl) | rfl) | rfl <;> decide

theorem isWordChar_of_isOpener {c : Char} (h : isOpener c = true) : isWordChar c = false := by
  simp only [isOpener, Bool.or_eq_true, beq_iff_eq] at h
  rcases h with (rfl | rfl) | rfl <;> decide

theorem isWordChar_of_isCloser {c : Char} (h : isCloser c = true) : isWordChar c = false := by
  simp only [isCloser, Bool.or_eq_true, beq_iff_eq] at h
  rcases h with (rfl | rfl) | rfl <;> decide

theorem isWordChar_mark (m : QuoteMark) : isWordChar m.char = false := by
  cases m <;> decide

/-- The words of lexemes one after the other. -/
def Lexeme.words (ls : List Lexeme) : List Text := ls.flatMap fun l => wordRuns l.spelling

namespace Lexeme

@[simp] theorem words_nil : words [] = [] := rfl

@[simp] theorem words_singleton (l : Lexeme) : words [l] = wordRuns l.spelling := by
  simp [words]

@[simp] theorem words_append (ls ks : List Lexeme) : words (ls ++ ks) = words ls ++ words ks :=
  List.flatMap_append

end Lexeme

namespace Scan

/-- A lexeme that is left out when it is blank has the words of the text. -/
theorem words_unless_blank {lexeme : Text → Lexeme} (h : ∀ v, (lexeme v).spelling = v) (t : Text) :
    Lexeme.words (if t.trim.isEmpty then [] else [lexeme t.trim]) = wordRuns t := by
  rw [← Text.wordRuns_trim t]
  split
  · next blank => rw [List.isEmpty_iff.mp blank]; rfl
  · rw [Lexeme.words_singleton, h]

theorem words_word (s : Scan) : Lexeme.words s.word = wordRuns s.buffer :=
  words_unless_blank (fun _ => rfl) s.buffer

theorem words_comment (s : Scan) : Lexeme.words s.comment = wordRuns s.buffer :=
  words_unless_blank (fun _ => rfl) s.buffer

/-- A step with this result has completed the words that it does not hold back, whatever text
comes next. -/
def KeepsWords (s : Scan) (c : Char) (result : List Lexeme × Scan) : Prop :=
  ∀ t, Lexeme.words result.1 ++ wordRuns (result.2.buffer ++ t) = wordRuns (s.buffer ++ c :: t)

namespace KeepsWords

variable {s : Scan} {c : Char} {ls : List Lexeme}

theorem hold (s : Scan) (c : Char) (mode : Mode) : s.KeepsWords c ([], s.hold c mode) := by
  intro t
  rw [buffer_hold, List.append_assoc]
  rfl

/-- A step over a character that is no part of a word completes the words held back. -/
theorem complete (hc : isWordChar c = false) (h : Lexeme.words ls = wordRuns s.buffer) :
    s.KeepsWords c (ls, start) := by
  intro t
  rw [Text.wordRuns_append_cons _ hc, h]
  rfl

end KeepsWords

theorem Takes.keepsWords {s : Scan} {c : Char} {result : List Lexeme × Scan}
    (h : s.Takes c result) : s.KeepsWords c result := by
  cases h with
  | hold mode text => exact .hold s c mode
  | mark m plain mark =>
      subst mark
      intro t
      rw [Text.wordRuns_append_cons _ (isWordChar_mark m), words_word]
      exact congrArg _ (Text.wordRuns_cons (isWordChar_mark m) t)
  | hash plain hash =>
      subst hash
      intro t
      rw [Text.wordRuns_append_cons _ (by decide), words_word]
      rfl
  | colon plain colon =>
      subst colon
      apply KeepsWords.complete (by decide)
      rw [Lexeme.words_singleton]
      exact Text.wordRuns_concat s.buffer (by decide)
  | minus plain minus blank =>
      subst minus
      apply KeepsWords.complete (by decide)
      rw [← Text.wordRuns_trim s.buffer, Text.trim_of_allBlank blank]
      rfl
  | space plain ends space => exact .complete (isWordChar_of_isBreak ends) s.words_word
  | separator plain ends visible =>
      apply KeepsWords.complete (isWordChar_of_isBreak ends)
      have none : wordRuns [c] = [] := Text.wordRuns_concat [] (isWordChar_of_isBreak ends)
      rw [Lexeme.words_append, words_word, Lexeme.words_singleton, Lexeme.spelling, none,
        List.append_nil]
  | quote m quoted mark =>
      subst mark
      apply KeepsWords.complete (isWordChar_mark m)
      rw [Lexeme.words_singleton, Lexeme.spelling, buffer_hold,
        Text.wordRuns_concat _ (isWordChar_mark m)]
  | newline inside newline =>
      subst newline
      exact .complete (by decide) s.words_comment
  | bracket inside closer =>
      apply KeepsWords.complete (isWordChar_of_isCloser closer)
      rw [Lexeme.words_singleton, spelling_bracket, buffer_hold,
        Text.wordRuns_concat _ (isWordChar_of_isCloser closer)]

theorem words_finish (s : Scan) : Lexeme.words s.finish = wordRuns s.buffer := by
  cases quote : s.mode.openMark? with
  | some m =>
      rw [finish_open quote, Lexeme.words_singleton, Lexeme.spelling,
        Text.wordRuns_concat _ (isWordChar_mark m)]
  | none =>
      obtain ⟨mode, held⟩ := s
      cases mode with
      | plain => exact words_word _
      | escaped => exact words_word _
      | quoted m => contradiction
      | quotedEscaped m => contradiction
      | comment => exact words_comment _
      | bracket depth within => rw [finish, Lexeme.words_singleton, spelling_bracket]

theorem words_run (s : Scan) (t : Text) : Lexeme.words (s.run t) = wordRuns (s.buffer ++ t) := by
  induction t generalizing s with
  | nil => rw [run, words_finish, List.append_nil]
  | cons c cs ih => rw [run, Lexeme.words_append, ih, (s.takes_step c).keepsWords cs]

end Scan

end Lexer

/-! ### Words of tokens -/

namespace Lexer

/-- A bracket's text starts with its opening delimiter, so no word runs into it. -/
def Lexeme.IsApart : Lexeme → Prop
  | bracket _ raw _ => Text.startsOutsideWord raw = true
  | _ => True

theorem Lexeme.WellFormed.isApart {l : Lexeme} (h : l.WellFormed) : l.IsApart := by
  cases l with
  | bracket callee raw closed =>
      obtain ⟨⟨c, first, opener⟩, -⟩ := h fun _ => []
      obtain ⟨rest, rfl⟩ := List.head?_eq_some_iff.mp first
      simp [IsApart, Text.startsOutsideWord, isWordChar_of_isOpener opener]
  | _ => trivial

end Lexer

namespace Token

/-- A bracket's text starts with its opening delimiter, so no word runs into it. -/
def IsApart : Token → Prop
  | bracket _ raw _ => Text.startsOutsideWord raw = true
  | _ => True

theorem isApart_of_mem_tokenize {t : Text} {k : Token} (h : k ∈ tokenize t) : k.IsApart := by
  obtain ⟨l, hl, rfl⟩ := List.mem_map.mp h
  have apart := (Lexer.wellFormed_of_mem_lexemes hl).isApart
  cases l with
  | bracket callee raw closed => exact apart
  | _ => trivial

/-- The words of tokens one after the other, those inside quotes, brackets and comments among
them. -/
def words (ts : List Token) : List Text := ts.flatMap fun t => wordRuns t.spelling

/-- The words of a bracket are those of its callee and those behind it. -/
theorem wordRuns_bracket {callee raw : Text} {items : List Token}
    (apart : (bracket callee raw items).IsApart) :
    wordRuns (bracket callee raw items).spelling = wordRuns callee ++ wordRuns raw :=
  Text.wordRuns_append callee apart

end Token

/-- The words of the tokens of a text are the words of the text. -/
theorem words_tokenize (t : Text) : Token.words (tokenize t) = wordRuns t := by
  have lexemes : Token.words (tokenize t) = Lexer.Lexeme.words (Lexer.lexemes t) := by
    simp [Token.words, Lexer.Lexeme.words, tokenize, Lexer.maxNesting, Lexer.tokensWithin,
      List.flatMap_map]
  rw [lexemes, Lexer.lexemes, Lexer.Scan.words_run, ← Text.wordRuns_trim t]
  rfl

end LogQuery
