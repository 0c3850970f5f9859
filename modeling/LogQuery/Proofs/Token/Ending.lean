import LogQuery.Proofs.Token.Conservation

/-!
# The last character of a text

Dropping the last character of a text nearly always changes its tokens. It leaves them as they
are in three cases: white space is trimmed away, a number sign opens a comment without text,
and the mark of a quote is put back where it is missing. What the tokens spell tells these
apart from all others. White space at the end of a quote is lost with its mark, so there the
mark is needed again.
-/

namespace LogQuery.Lexer

/-- The last character of the text, if there is one, has no effect on its tokens. -/
inductive NeedlessEnd : Text → Prop
  | empty : NeedlessEnd []
  | blank {t : Text} {c : Char} (h : Text.isBlank c = true) : NeedlessEnd (t ++ [c])
  /-- A number sign that opens a comment. -/
  | comment {t : Text} (h : endMode t = .plain) : NeedlessEnd (t ++ ['#'])
  /-- A mark that closes a quote, with no white space before it. -/
  | mark {t : Text} {m : QuoteMark} (h : endMode t = .quoted m)
      (last : ∀ c ∈ t.getLast?, Text.isBlank c = false) : NeedlessEnd (t ++ [m.char])

theorem endMode_concat (t : Text) (c : Char) : endMode (t ++ [c]) = (endMode t).step c := by
  rw [endMode, Mode.after_append]
  rfl

theorem trimStart_ne_nil {t : Text} (h : endMode t ≠ .plain) : t.trimStart ≠ [] := by
  intro empty
  rw [← endMode_trimStart, empty] at h
  exact h rfl

/-! ### White space at the end -/

namespace Scan

variable {s : Scan} {c : Char} {t : Text}

theorem word_hold_blank (h : Text.isBlank c = true) (s : Scan) (mode : Mode) :
    (s.hold c mode).word = s.word := by
  rw [word, word, buffer_hold, Text.trim_concat_blank _ h]

theorem comment_hold_blank (h : Text.isBlank c = true) (s : Scan) (mode : Mode) :
    (s.hold c mode).comment = s.comment := by
  rw [comment, comment, buffer_hold, Text.trim_concat_blank _ h]

theorem finish_step_plain_blank (h : Text.isBlank c = true) (held : List Char) :
    (step ⟨.plain, held⟩ c).1 ++ (step ⟨.plain, held⟩ c).2.finish = word ⟨.plain, held⟩ := by
  have slash := Text.ne_of_isBlank h (d := '\\') (by decide)
  have hash := Text.ne_of_isBlank h (d := '#') (by decide)
  have colon := Text.ne_of_isBlank h (d := ':') (by decide)
  have minus := Text.ne_of_isBlank h (d := '-') (by decide)
  by_cases separator : isBreak c = true
  · have space : c.isWhitespace = true := by rw [← isBlank_of_isBreak separator, h]
    have result : step ⟨.plain, held⟩ c = (word ⟨.plain, held⟩, start) := by
      simp [step, stepPlain, QuoteMark.ofChar?_of_isBlank h, isOpener_of_isBlank h, slash,
        hash, colon, minus, separator, space]
    rw [result]
    exact List.append_nil _
  · have result : step ⟨.plain, held⟩ c = ([], hold ⟨.plain, held⟩ c .plain) := by
      simp [step, stepPlain, QuoteMark.ofChar?_of_isBlank h, isOpener_of_isBlank h, slash,
        hash, colon, minus, separator]
    rw [result]
    exact word_hold_blank h _ _

/-- Outside quotes and brackets, white space before the end makes no difference to it. -/
theorem finish_step_blank (h : Text.isBlank c = true) (noQuote : s.mode.openMark? = none)
    (noBracket : s.mode.isBracket = false) :
    (s.step c).1 ++ (s.step c).2.finish = s.finish := by
  obtain ⟨mode, held⟩ := s
  cases mode with
  | plain => exact finish_step_plain_blank h held
  | escaped => exact word_hold_blank h _ _
  | comment =>
      by_cases newline : c = '\n'
      · subst newline
        exact List.append_nil _
      · have result : step ⟨.comment, held⟩ c = ([], hold ⟨.comment, held⟩ c .comment) := by
          simp [step, newline]
        rw [result]
        exact comment_hold_blank h _ _
  | quoted m => contradiction
  | quotedEscaped m => contradiction
  | bracket depth within => contradiction

theorem run_blank (h : ∀ c ∈ t, Text.isBlank c = true) (noQuote : s.mode.openMark? = none)
    (noBracket : s.mode.isBracket = false) : s.run t = s.finish := by
  induction t generalizing s with
  | nil => rfl
  | cons c cs ih =>
      have blank := h c (by simp)
      obtain ⟨quote, bracket⟩ := s.mode.step_blank blank
      rw [← mode_step] at quote bracket
      rw [run, ih (fun d hd => h d (by simp [hd])) (quote.trans noQuote)
        (bracket.trans noBracket), finish_step_blank blank noQuote noBracket]

/-- Inside a quote, white space is held back like any other character. -/
theorem step_blank_open {m : QuoteMark} (h : Text.isBlank c = true)
    (quote : s.mode.openMark? = some m) : s.step c = ([], s.hold c (.quoted m)) := by
  obtain ⟨mode, held⟩ := s
  rcases Mode.openMark?_eq_some_iff.mp quote with rfl | rfl
  · have slash := Text.ne_of_isBlank h (d := '\\') (by decide)
    have mark := Text.ne_of_isBlank h m.isBlank_char
    simp [step, stepQuoted, slash, mark]
  · rfl

theorem feed_blank_open {m : QuoteMark} (h : ∀ c ∈ t, Text.isBlank c = true)
    (quote : s.mode.openMark? = some m) :
    (s.feed t).1 = [] ∧ (s.feed t).2.buffer = s.buffer ++ t := by
  induction t generalizing s with
  | nil => exact ⟨rfl, (List.append_nil _).symm⟩
  | cons c cs ih =>
      obtain ⟨nothing, held⟩ := ih (s := s.hold c (.quoted m)) (fun d hd => h d (by simp [hd])) rfl
      rw [feed_cons, step_blank_open (h c (by simp)) quote]
      refine ⟨nothing, ?_⟩
      rw [held, buffer_hold, List.append_assoc]
      rfl

theorem finish_plain (h : s.mode = .plain) : s.finish = s.word := by
  rw [finish, h]

theorem step_hash (h : s.mode = .plain) : s.step '#' = (s.word, ⟨.comment, []⟩) := by
  obtain ⟨mode, held⟩ := s
  subst h
  simp [step, stepPlain, QuoteMark.ofChar?]

theorem step_mark {m : QuoteMark} (quote : s.mode = .quoted m) :
    s.step m.char = ([.quote (s.buffer ++ [m.char])], start) := by
  obtain ⟨mode, held⟩ := s
  subst quote
  simp [step, stepQuoted, hold, buffer]

end Scan

/-! ### Texts that end alike -/

section Concat

variable {t : Text} {c : Char}

/-- Outside quotes and brackets, white space at the end makes no difference to a run. -/
theorem run_trimEnd (s : Scan) (noQuote : (s.mode.after t).openMark? = none)
    (noBracket : (s.mode.after t).isBracket = false) : s.run t.trimEnd = s.run t := by
  obtain ⟨after, ending, blank⟩ := Text.exists_trimEnd t
  rw [ending, Mode.after_append] at noQuote noBracket
  rw [(Mode.after_blank blank _).1, ← Scan.mode_feed] at noQuote
  rw [(Mode.after_blank blank _).2, ← Scan.mode_feed] at noBracket
  conv_rhs => rw [ending]
  rw [Scan.run_eq_feed, Scan.run_append, Scan.run_blank blank noQuote noBracket]

/-- A visible last character is read after the rest of the text. -/
theorem lexemes_concat (t : Text) (hc : Text.isBlank c = false) :
    lexemes (t ++ [c]) = (Scan.start.feed t.trimStart).1 ++
      (Scan.start.feed t.trimStart).2.run [c] := by
  rw [lexemes, Text.trim_concat t hc, Scan.run_append]

theorem mode_feed_trimStart (t : Text) : (Scan.start.feed t.trimStart).2.mode = endMode t := by
  rw [Scan.mode_feed, ← endMode_trimStart]
  rfl

theorem lexemes_comment (h : endMode t = .plain) : lexemes (t ++ ['#']) = lexemes t := by
  have plain : Scan.start.mode.after t.trimStart = .plain := by
    rw [← Scan.mode_feed, mode_feed_trimStart, h]
  have whole : lexemes t = Scan.start.run t.trimStart :=
    run_trimEnd Scan.start (by rw [plain]; rfl) (by rw [plain]; rfl)
  have mode := (mode_feed_trimStart t).trans h
  rw [lexemes_concat t (by decide), whole, Scan.run, Scan.step_hash mode,
    Scan.run_eq_feed _ t.trimStart, Scan.finish_plain mode]
  exact congrArg _ (List.append_nil _)

/-- A text that ends in a quote, and the same text with the quote closed: their last tokens
differ in the white space before the end. -/
theorem exists_lexemes_mark {m : QuoteMark} (h : endMode t = .quoted m) :
    ∃ ls v after, t.trimStart = t.trim ++ after ∧ (∀ c ∈ after, Text.isBlank c = true) ∧
      lexemes t = ls ++ [.quote (v ++ [m.char])] ∧
      lexemes (t ++ [m.char]) = ls ++ [.quote (v ++ after ++ [m.char])] := by
  obtain ⟨after, ending, blank⟩ := Text.exists_trimEnd t.trimStart
  have mode := mode_feed_trimStart t
  have quote : (Scan.start.feed t.trim).2.mode.openMark? = some m := by
    rw [h, ending, Scan.mode_feed, Mode.after_append, ← Scan.mode_feed] at mode
    rw [← (Mode.after_blank blank _).1]
    exact congrArg Mode.openMark? mode
  obtain ⟨nothing, held⟩ := Scan.feed_blank_open blank quote
  refine ⟨(Scan.start.feed t.trim).1, (Scan.start.feed t.trim).2.buffer, after, ending, blank,
    ?_, ?_⟩
  · rw [lexemes, Scan.run_eq_feed, Scan.finish_open quote]
  · have fed : Scan.start.feed t.trimStart = ((Scan.start.feed t.trim).1 ++
        ((Scan.start.feed t.trim).2.feed after).1, ((Scan.start.feed t.trim).2.feed after).2) := by
      conv_lhs => rw [ending]
      exact Scan.feed_append _ _ _
    rw [lexemes_concat t m.isBlank_char, Scan.run, Scan.step_mark (mode.trans h), fed, nothing,
      held, List.append_nil]
    exact congrArg _ (List.append_nil _)

end Concat

/-- White space at the end of a text is what trimming it takes away there. -/
theorem trailing_eq_nil_iff {t after : Text} (ending : t.trimStart = t.trim ++ after)
    (blank : ∀ c ∈ after, Text.isBlank c = true) (nonempty : t.trimStart ≠ []) :
    after = [] ↔ ∀ c ∈ t.getLast?, Text.isBlank c = false := by
  rw [← Text.getLast?_trimStart nonempty]
  constructor
  · rintro rfl c hc
    rw [ending, List.append_nil] at hc
    exact Text.getLast?_trimEnd hc
  · intro last
    rcases after.eq_nil_or_concat with rfl | ⟨u, c, rfl⟩
    · rfl
    · have visible := last c (by rw [ending]; simp)
      rw [blank c (by simp)] at visible
      contradiction

theorem lexemes_of_needlessEnd {t : Text} (h : NeedlessEnd t) : lexemes t.dropLast = lexemes t := by
  cases h with
  | empty => rfl
  | blank h => rw [List.dropLast_concat, lexemes, lexemes, Text.trim_concat_blank _ h]
  | comment h => rw [List.dropLast_concat, lexemes_comment h]
  | @mark t m h last =>
      obtain ⟨ls, v, after, ending, blank, without, closed⟩ := exists_lexemes_mark h
      obtain rfl := (trailing_eq_nil_iff ending blank (trimStart_ne_nil (by simp [h]))).mpr last
      rw [List.dropLast_concat, without, closed, List.append_nil]

/-- A visible character leaves nothing more than there was only where it opens a comment or
closes a quote. -/
theorem Mode.eq_of_balance {q : Mode} {c : Char} (visible : Text.isBlank c = false)
    (balance : q.openMark?.toList.map QuoteMark.char =
      q.remnant c ++ (q.step c).openMark?.toList.map QuoteMark.char) :
    (q = .plain ∧ c = '#') ∨ ∃ m, q = .quoted m ∧ c = m.char := by
  by_cases hash : q = .plain ∧ c = '#'
  · exact .inl hash
  right
  have remnant : q.remnant c = [c] := by
    rw [← Text.visible_singleton visible]
    cases q with
    | plain => exact if_neg fun h => hash ⟨rfl, h⟩
    | _ => rfl
  rw [remnant] at balance
  cases quote : q.openMark? with
  | none => simp [quote] at balance
  | some m =>
      simp only [quote, Option.toList_some, List.map_cons, List.map_nil, List.singleton_append,
        List.cons.injEq] at balance
      obtain ⟨rfl, closed⟩ := balance
      rcases Mode.openMark?_eq_some_iff.mp quote with rfl | rfl
      · exact ⟨m, rfl, rfl⟩
      · simp [Mode.step, Mode.openMark?] at closed

/-- Dropping the last character of a text leaves its tokens as they are exactly when the
character has no effect. -/
theorem tokensWithin_dropLast_iff (levels : Nat) (t : Text) :
    tokensWithin (levels + 1) t.dropLast = tokensWithin (levels + 1) t ↔ NeedlessEnd t := by
  constructor
  · intro same
    rcases t.eq_nil_or_concat' with rfl | ⟨u, c, rfl⟩
    · exact .empty
    rw [List.dropLast_concat] at same
    by_cases blank : Text.isBlank c = true
    · exact .blank blank
    have visible : Text.isBlank c = false := by simpa using blank
    have spelled := congrArg (fun ts => (Token.spellings ts).visible) same
    simp only [spellings_tokensWithin, visible_spellings_lexemes, Mode.remains_append,
      Mode.remains_cons, Mode.remains_nil, List.append_nil, List.append_assoc] at spelled
    have balance := List.append_cancel_left spelled
    rw [openQuote?, openQuote?, endMode_concat] at balance
    rcases Mode.eq_of_balance visible balance with ⟨plain, rfl⟩ | ⟨m, quoted, rfl⟩
    · exact .comment plain
    · apply NeedlessEnd.mark quoted
      obtain ⟨ls, v, after, ending, blank, without, closed⟩ := exists_lexemes_mark quoted
      rw [tokensWithin, tokensWithin, without, closed, List.map_append, List.map_append] at same
      have last := List.append_cancel_left same
      have trailing : after = [] := by simpa [Lexeme.toToken] using last
      exact (trailing_eq_nil_iff ending blank (trimStart_ne_nil (by simp [quoted]))).mp trailing
  · intro h
    rw [tokensWithin, tokensWithin, lexemes_of_needlessEnd h]

end LogQuery.Lexer
