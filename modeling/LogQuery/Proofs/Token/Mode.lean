import LogQuery.Proofs.Text.Visible
import LogQuery.Proofs.Token.Spelling

/-!
# Where in a text a scan stands

Whether the next character is quoted, escaped, in a comment or in a bracket depends on the
characters before it alone, and not on what the scan holds back. So the modes form an
automaton of their own, and the place in which a text ends is a matter of the text: between
two marks, in a bracket, or in neither. White space at the ends has no part in it.
-/

namespace LogQuery

namespace QuoteMark

theorem isBlank_char (m : QuoteMark) : Text.isBlank m.char = false := by
  cases m <;> decide

theorem ofChar?_of_isBlank {c : Char} (h : Text.isBlank c = true) : ofChar? c = none := by
  rw [Option.eq_none_iff_forall_ne_some]
  intro m hm
  exact Text.ne_of_isBlank h m.isBlank_char (ofChar?_eq_some_iff.mp hm)

end QuoteMark

section Blank

variable {c : Char}

theorem isOpener_of_isBlank (h : Text.isBlank c = true) : isOpener c = false := by
  have round := Text.ne_of_isBlank h (d := '(') (by decide)
  have square := Text.ne_of_isBlank h (d := '[') (by decide)
  have curly := Text.ne_of_isBlank h (d := '{') (by decide)
  simp [isOpener, round, square, curly]

theorem isCloser_of_isBlank (h : Text.isBlank c = true) : isCloser c = false := by
  have round := Text.ne_of_isBlank h (d := ')') (by decide)
  have square := Text.ne_of_isBlank h (d := ']') (by decide)
  have curly := Text.ne_of_isBlank h (d := '}') (by decide)
  simp [isCloser, round, square, curly]

end Blank

namespace Lexer

namespace Mode

/-- The mode after one more character. -/
def step : Mode → Char → Mode
  | .plain, c =>
    match QuoteMark.ofChar? c with
    | some m => .quoted m
    | none =>
      if c == '\\' then .escaped
      else if c == '#' then .comment
      else if isOpener c then .bracket 0 .outside
      else .plain
  | .escaped, _ => .plain
  | .quoted m, c =>
    if c == m.char then .plain
    else if c == '\\' && m != .backtick then .quotedEscaped m
    else .quoted m
  | .quotedEscaped m, _ => .quoted m
  | .comment, c => if c == '\n' then .plain else .comment
  | .bracket depth within, c =>
    if within == .outside && isCloser c then
      match depth with
      | 0 => .plain
      | depth + 1 => .bracket depth .outside
    else if within == .outside && isOpener c then .bracket (depth + 1) .outside
    else .bracket depth (within.step true c)

/-- The mode after a text. -/
def after (m : Mode) (t : Text) : Mode := t.foldl step m

@[simp] theorem after_nil (m : Mode) : m.after [] = m := rfl

@[simp] theorem after_cons (m : Mode) (c : Char) (t : Text) :
    m.after (c :: t) = (m.step c).after t := rfl

@[simp] theorem after_append (m : Mode) (t u : Text) :
    m.after (t ++ u) = (m.after t).after u := List.foldl_append

/-- The mark of the quote that the mode is in. -/
def openMark? : Mode → Option QuoteMark
  | .quoted m | .quotedEscaped m => some m
  | _ => none

theorem openMark?_eq_some_iff {m : Mode} {k : QuoteMark} :
    m.openMark? = some k ↔ m = .quoted k ∨ m = .quotedEscaped k := by
  cases m <;> simp [openMark?]

/-- The mode is inside a bracket. -/
def isBracket : Mode → Bool
  | .bracket .. => true
  | _ => false

end Mode

/-- The mode in which a text ends. -/
def endMode (t : Text) : Mode := Mode.plain.after t

/-- The mark of the quote that a text leaves open at its end. -/
def openQuote? (t : Text) : Option QuoteMark := (endMode t).openMark?

/-- The text leaves a bracket open at its end. -/
def endsInBracket (t : Text) : Bool := (endMode t).isBracket

example : openQuote? "a:'b # (" = some .single := by decide

/-! ### The modes of a scan -/

namespace Scan

/-- What is held back has no influence on the mode. -/
theorem mode_step (s : Scan) (c : Char) : (s.step c).2.mode = s.mode.step c := by
  obtain ⟨mode, held⟩ := s
  cases mode with
  | plain =>
      by_cases colon : c = ':'
      · subst colon
        rfl
      · simp only [step, stepPlain, Mode.step, beq_false_of_ne colon, Bool.false_eq_true, if_false]
        cases QuoteMark.ofChar? c with
        | some m => rfl
        | none => split_ifs <;> rfl
  | escaped => rfl
  | quoted m =>
      simp only [step, stepQuoted, Mode.step]
      split_ifs <;> rfl
  | quotedEscaped m => rfl
  | comment =>
      simp only [step, Mode.step]
      split_ifs <;> rfl
  | bracket depth within =>
      simp only [step, stepBracket, Mode.step]
      cases depth with
      | zero => split_ifs <;> rfl
      | succ depth => split_ifs <;> rfl

theorem mode_feed (s : Scan) (t : Text) : (s.feed t).2.mode = s.mode.after t := by
  induction t generalizing s with
  | nil => rfl
  | cons c cs ih => rw [feed_cons, ih, mode_step, Mode.after_cons]

end Scan

/-! ### White space -/

namespace Mode

variable {c : Char} {t : Text}

theorem step_plain_blank (h : Text.isBlank c = true) : plain.step c = plain := by
  have slash := Text.ne_of_isBlank h (d := '\\') (by decide)
  have hash := Text.ne_of_isBlank h (d := '#') (by decide)
  simp [step, QuoteMark.ofChar?_of_isBlank h, slash, hash, isOpener_of_isBlank h]

theorem step_quoted_blank (h : Text.isBlank c = true) (m : QuoteMark) :
    (quoted m).step c = quoted m := by
  have slash := Text.ne_of_isBlank h (d := '\\') (by decide)
  have mark := Text.ne_of_isBlank h m.isBlank_char
  simp [step, slash, mark]

theorem step_bracket_blank (h : Text.isBlank c = true) (depth : Nat) (within : Within) :
    (bracket depth within).step c = bracket depth (within.step true c) := by
  simp [step, isOpener_of_isBlank h, isCloser_of_isBlank h]

/-- White space neither opens nor closes a quote or a bracket. -/
theorem step_blank (h : Text.isBlank c = true) (m : Mode) :
    (m.step c).openMark? = m.openMark? ∧ (m.step c).isBracket = m.isBracket := by
  cases m with
  | plain =>
      rw [step_plain_blank h]
      exact ⟨rfl, rfl⟩
  | escaped => exact ⟨rfl, rfl⟩
  | quoted m =>
      rw [step_quoted_blank h]
      exact ⟨rfl, rfl⟩
  | quotedEscaped m => exact ⟨rfl, rfl⟩
  | comment =>
      rw [step]
      split
      · exact ⟨rfl, rfl⟩
      · exact ⟨rfl, rfl⟩
  | bracket depth within =>
      rw [step_bracket_blank h]
      exact ⟨rfl, rfl⟩

theorem after_plain_blank (h : ∀ c ∈ t, Text.isBlank c = true) : plain.after t = plain := by
  induction t with
  | nil => rfl
  | cons c cs ih =>
      rw [after_cons, step_plain_blank (h c (by simp)), ih fun d hd => h d (by simp [hd])]

theorem after_blank (h : ∀ c ∈ t, Text.isBlank c = true) (m : Mode) :
    (m.after t).openMark? = m.openMark? ∧ (m.after t).isBracket = m.isBracket := by
  induction t generalizing m with
  | nil => exact ⟨rfl, rfl⟩
  | cons c cs ih =>
      obtain ⟨quote, bracket⟩ := step_blank (h c (by simp)) m
      obtain ⟨quotes, brackets⟩ := ih (fun d hd => h d (by simp [hd])) (m.step c)
      exact ⟨quotes.trans quote, brackets.trans bracket⟩

end Mode

theorem endMode_trimStart (t : Text) : endMode t.trimStart = endMode t := by
  obtain ⟨before, start, blank⟩ := Text.exists_trimStart t
  conv_rhs => rw [start]
  rw [endMode, endMode, Mode.after_append, Mode.after_plain_blank blank]

/-- Behind its trimmed form, a text has only white space to read. -/
theorem exists_endMode_trim (t : Text) :
    ∃ after, (∀ c ∈ after, Text.isBlank c = true) ∧ endMode t = (endMode t.trim).after after := by
  obtain ⟨after, ending, blank⟩ := Text.exists_trimEnd t.trimStart
  refine ⟨after, blank, ?_⟩
  rw [← endMode_trimStart, ending, endMode, Mode.after_append]
  rfl

/-- Trimming a text has no influence on the quote or the bracket that it ends in. -/
theorem openQuote?_trim (t : Text) : openQuote? t.trim = openQuote? t := by
  obtain ⟨after, blank, ending⟩ := exists_endMode_trim t
  rw [openQuote?, openQuote?, ending, (Mode.after_blank blank _).1]

theorem endsInBracket_trim (t : Text) : endsInBracket t.trim = endsInBracket t := by
  obtain ⟨after, blank, ending⟩ := exists_endMode_trim t
  rw [endsInBracket, endsInBracket, ending, (Mode.after_blank blank _).2]

end Lexer

end LogQuery
