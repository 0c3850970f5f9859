import LogQuery.Proofs.Token.Ending

/-!
# Texts joined by a separator

A separator outside quotes and brackets is a token of its own and parts the text around it: the
tokens before it are those of the text before, and the tokens behind it are those of the text
behind. White space next to the separator is trimmed from either side when the sides are read on
their own. Inside the whole text, the white space behind the separator is passed over only if it
consists of characters that end words.
-/

namespace LogQuery

namespace Lexer

variable {a b : Text} {c : Char}

theorem step_start_blank (hc : Text.isBlank c = true) (hb : isBreak c = true) :
    Scan.start.step c = ([], Scan.start) := by
  simp only [isBreak, Bool.or_eq_true, beq_iff_eq] at hb
  rcases hb with (((((rfl | rfl) | rfl) | rfl) | rfl) | rfl) | rfl
  all_goals first | rfl | contradiction

theorem feed_start_blank {t : Text} (h : ∀ c ∈ t, Text.isBlank c = true ∧ isBreak c = true) :
    Scan.start.feed t = ([], Scan.start) := by
  induction t with
  | nil => rfl
  | cons c cs ih =>
      obtain ⟨blank, separator⟩ := h c (by simp)
      rw [Scan.feed_cons, step_start_blank blank separator, ih fun d hd => h d (by simp [hd])]
      rfl

theorem run_trimEnd_start (h : ∀ c ∈ b.takeWhile Text.isBlank, isBreak c = true) :
    Scan.start.run b.trimEnd = lexemes b := by
  rcases b.trimEnd_eq_append with ⟨ending, trimmed⟩ | ending
  · rw [lexemes, ending, trimmed]
  · have gap : Scan.start.feed (b.takeWhile Text.isBlank) = ([], Scan.start) :=
      feed_start_blank fun d hd => ⟨List.mem_takeWhile_imp hd, h d hd⟩
    rw [ending, Scan.run_append, gap]
    rfl

theorem lexemes_separator (hc : c ∈ [',', '|', '=', '!']) (ha : endMode a = .plain)
    (hb : ∀ d ∈ b.takeWhile Text.isBlank, isBreak d = true) :
    lexemes (a ++ c :: b) = lexemes a ++ .word [c] :: lexemes b := by
  have visible : Text.isBlank c = false := by
    simp only [List.mem_cons, List.not_mem_nil, or_false] at hc
    rcases hc with rfl | rfl | rfl | rfl <;> decide
  have mode := (mode_feed_trimStart a).trans ha
  have plain : Scan.start.mode.after a.trimStart = .plain := by rw [← Scan.mode_feed, mode]
  have before : lexemes a = Scan.start.run a.trimStart :=
    run_trimEnd Scan.start (by rw [plain]; rfl) (by rw [plain]; rfl)
  rw [before, lexemes, Text.trim_append_cons a visible, Scan.run_append, Scan.run,
    Scan.step_break mode hc, run_trimEnd_start hb, Scan.run_eq_feed, Scan.finish_plain mode]
  simp

end Lexer

/-- The tokens of a text with a separator outside quotes and brackets. -/
theorem tokenize_separator {a b : Text} {c : Char} (hc : c ∈ [',', '|', '=', '!'])
    (ha : Lexer.endMode a = .plain)
    (hb : ∀ d ∈ b.takeWhile Text.isBlank, Lexer.isBreak d = true) :
    tokenize (a ++ c :: b) = tokenize a ++ .word [c] :: tokenize b := by
  rw [tokenize, Lexer.maxNesting, Lexer.tokensWithin, Lexer.lexemes_separator hc ha hb]
  simp [tokenize, Lexer.maxNesting, Lexer.tokensWithin, Lexer.Lexeme.toToken]

end LogQuery
