import LogQuery.Proofs.Token.Capture
import LogQuery.Proofs.Token.Held
import LogQuery.Proofs.Token.Interior
import LogQuery.Proofs.Token.Stage
import LogQuery.Token.Split

/-!
# Text rebuilt from its tokens

The tokens of a text without escapes and comments, written one after the other with a space
between, are read as the same tokens. A space between two tokens neither splits nor joins any:
every token that a scan completes is one that its own spelling is read as when a space follows
it. What a scan holds back is read in the same way, so this is so of the token that the end of
the text completes as well, an open quote with its mark and an open bracket as far as it goes.
-/

namespace LogQuery

namespace Lexer

open Text (isBlank)

/-- When a space follows, the spelling of the lexeme is read as the lexeme. -/
structure Lexeme.Rereads (l : Lexeme) : Prop where
  read : Scan.start.feed (l.spelling ++ [' ']) = ([l], .start)
  ending : ∃ c ∈ l.spelling.getLast?, isBlank c = false
  source : ∀ inside, (l.toToken inside).source? = some l.spelling

/-- What the scan holds back is read as the scan. -/
structure Scan.Rereads (s : Scan) : Prop where
  read : start.feed s.buffer = ([], s)
  held : s.mode = .plain → IsHeld s.buffer

namespace Lexeme.Rereads

variable {l : Lexeme}

/-- A lexeme that is complete before the space. -/
theorem of_feed (read : Scan.start.feed l.spelling = ([l], .start))
    (ending : ∃ c ∈ l.spelling.getLast?, isBlank c = false)
    (source : ∀ inside, (l.toToken inside).source? = some l.spelling) : l.Rereads where
  read := by
    rw [Scan.feed_append, read, Scan.feed_cons, Scan.step_space rfl]
    rfl
  ending := ending
  source := source

theorem word {w : Text} (held : IsHeld w) (tight : w.Tight) : Rereads (.word w) where
  read := held.feed_space tight
  ending := by
    obtain ⟨c, last⟩ :=
      Option.ne_none_iff_exists'.mp (mt List.getLast?_eq_none_iff.mp tight.nonempty)
    exact ⟨c, last, tight.last c last⟩
  source _ := rfl

/-- The end of the text closes the lexeme as a space does. -/
theorem run_spelling (h : l.Rereads) : Scan.start.run l.spelling = [l] := by
  have read := h.read
  rw [Scan.feed_append, Scan.feed_cons, Scan.feed_nil] at read
  have plain := Scan.mode_of_step_space (congrArg Prod.snd read)
  rw [Scan.step_space plain] at read
  rw [Scan.run_eq_feed, Scan.finish_plain plain]
  simpa using congrArg Prod.fst read

end Lexeme.Rereads

namespace Scan

variable {s : Scan} {c : Char} {p : Place} {t : Text}

/-! ### One step -/

/-- What a character does to a scan. -/
inductive Outcome (s : Scan) (c : Char) : List Lexeme × Scan → Prop
  /-- It is held back. -/
  | held {s' : Scan} (buffer : s'.buffer = s.buffer ++ [c]) (rereads : s'.Rereads) :
      Outcome s c ([], s')
  /-- It completes what was held back. -/
  | whole {l : Lexeme} (spelling : l.spelling = s.buffer ++ [c]) (rereads : l.Rereads) :
      Outcome s c ([l], start)
  /-- It ends a word, and is a word itself or a space. -/
  | apart {ls : List Lexeme} (plain : s.mode = .plain)
      (own : isBlank c = true ∧ ls = [] ∨ isBlank c = false ∧ ls = [.word [c]])
      (rereads : ∀ l ∈ ls, l.Rereads) : Outcome s c (s.word ++ ls, start)
  /-- It ends a word and opens a quote. -/
  | mark {m : QuoteMark} (plain : s.mode = .plain) (mark : c = m.char) :
      Outcome s c (s.word, ⟨.quoted m, [c]⟩)

theorem rereads_start : start.Rereads := ⟨rfl, fun _ => .nil⟩

theorem rereads_mark (m : QuoteMark) : Rereads ⟨.quoted m, [m.char]⟩ := by
  cases m <;> exact ⟨rfl, fun h => by contradiction⟩

theorem Rereads.outcome_hold (h : s.Rereads) (mode : Mode) (step : s.step c = ([], s.hold c mode))
    (held : mode = .plain → IsHeld (s.buffer ++ [c])) : Outcome s c (s.step c) := by
  rw [step]
  refine .held (s.buffer_hold c mode) ⟨?_, ?_⟩
  · rw [buffer_hold, feed_append, h.read, feed_cons, step]
    rfl
  · rw [buffer_hold]
    exact held

theorem Rereads.outcome_whole (h : s.Rereads) (l : Lexeme) (step : s.step c = ([l], start))
    (spelling : l.spelling = s.buffer ++ [c]) (visible : isBlank c = false)
    (source : ∀ inside, (l.toToken inside).source? = some l.spelling) :
    Outcome s c (s.step c) := by
  rw [step]
  refine .whole spelling (.of_feed ?_ ?_ source)
  · rw [spelling, feed_append, h.read, feed_cons, step]
    rfl
  · rw [spelling]
    exact ⟨c, by simp, visible⟩

/-- A separator or a minus sign on its own. -/
theorem rereads_separator (hc : isBreak c = true ∨ c = '-') (visible : isBlank c = false) :
    Lexeme.Rereads (.word [c]) := by
  refine .of_feed ?_ ⟨c, rfl, visible⟩ fun _ => rfl
  rcases hc with separator | rfl
  · simp only [isBreak, Bool.or_eq_true, beq_iff_eq] at separator
    rcases separator with (((((rfl | rfl) | rfl) | rfl) | rfl) | rfl) | rfl
    all_goals first | rfl | contradiction
  · rfl

theorem isPlain_or_of_not_break (mark : QuoteMark.ofChar? c = none) (hash : c ≠ '#')
    (slash : c ≠ '\\') (colon : c ≠ ':') (opener : isOpener c = false)
    (separator : isBreak c = false) : isPlain c = true ∨ c = '-' := by
  have noMark (m : QuoteMark) : c ≠ m.char := by
    intro same
    rw [QuoteMark.ofChar?_eq_some_iff.mpr same] at mark
    contradiction
  have single : c ≠ '\'' := noMark .single
  have double : c ≠ '"' := noMark .double
  have tick : c ≠ '`' := noMark .backtick
  simp only [isOpener, isBreak, Bool.or_eq_false_iff, beq_eq_false_iff_ne] at opener separator
  by_cases minus : c = '-'
  · exact .inr minus
  · left
    simp [isPlain, single, double, tick, hash, slash, colon, minus, opener, separator]

theorem outcome_plain (plain : s.mode = .plain) (hash : c ≠ '#') (slash : c ≠ '\\')
    (h : s.Rereads) : Outcome s c (s.step c) := by
  have step : s.step c = s.stepPlain c := by rw [Scan.step, plain]
  cases mark : QuoteMark.ofChar? c with
  | some m =>
      rw [step, stepPlain, mark]
      exact .mark plain (QuoteMark.ofChar?_eq_some_iff.mp mark)
  | none =>
    by_cases colon : c = ':'
    · subst colon
      exact h.outcome_whole (.field s.buffer) (by rw [step]; rfl) rfl (by decide) fun _ => rfl
    cases opener : isOpener c with
    | true =>
        refine h.outcome_hold (.bracket 0 .outside) ?_ (by simp)
        rw [step]
        simp [stepPlain, mark, slash, hash, colon, opener]
    | false =>
      by_cases minus : c = '-' ∧ s.buffer.allBlank = true
      · obtain ⟨rfl, blank⟩ := minus
        -- only white space is held back, so the sign ends no word
        have noWord : s.word = [] := by simp [word, Text.trim_of_allBlank blank]
        have result : s.step '-' = (s.word ++ [.word ['-']], start) := by
          rw [step, noWord]
          simp [stepPlain, mark, opener, blank]
        rw [result]
        exact .apart plain (.inr ⟨by decide, rfl⟩)
          (by simpa using rereads_separator (.inr rfl) (by decide))
      cases separator : isBreak c with
      | true =>
          have result : s.step c =
              (s.word ++ if c.isWhitespace then [] else [.word [c]], start) := by
            rw [step]
            simp [stepPlain, mark, slash, hash, colon, opener, minus, separator]
          rw [result, ← isBlank_of_isBreak separator]
          cases visible : isBlank c with
          | true => exact .apart plain (.inl ⟨visible, rfl⟩) (by simp)
          | false =>
              exact .apart plain (.inr ⟨visible, rfl⟩)
                (by simpa using rereads_separator (.inl separator) visible)
      | false =>
          refine h.outcome_hold .plain ?_ fun _ => ?_
          · rw [step]
            simp [stepPlain, mark, slash, hash, colon, opener, minus, separator]
          · refine (h.held plain).concat ?_
            rcases isPlain_or_of_not_break mark hash slash colon opener separator with free | rfl
            · exact .inl free
            · exact .inr ⟨rfl, by simpa using minus⟩

theorem outcome_quoted {m : QuoteMark} (quoted : s.mode = .quoted m) (slash : c ≠ '\\')
    (h : s.Rereads) : Outcome s c (s.step c) := by
  have step : s.step c = s.stepQuoted m c := by rw [Scan.step, quoted]
  by_cases closes : c = m.char
  · subst closes
    refine h.outcome_whole (.quote (s.buffer ++ [m.char])) ?_ rfl m.isBlank_char fun _ => rfl
    rw [step, stepQuoted, if_pos (beq_self_eq_true _), buffer_hold]
  · refine h.outcome_hold (.quoted m) ?_ (by simp)
    rw [step]
    simp [stepQuoted, closes, slash]

theorem outcome_bracket {depth : Nat} {within : Within} (bracket : s.mode = .bracket depth within)
    (h : s.Rereads) : Outcome s c (s.step c) := by
  obtain ⟨mode, held⟩ := s
  obtain rfl : mode = .bracket depth within := bracket
  by_cases closes : within = .outside ∧ isCloser c = true ∧ depth = 0
  · obtain ⟨rfl, closer, rfl⟩ := closes
    have visible : isBlank c = false := by
      rw [Bool.eq_false_iff]
      intro blank
      rw [isCloser_of_isBlank blank] at closer
      contradiction
    exact h.outcome_whole _ (step_closer closer held)
      ((spelling_bracket _ true).trans List.reverse_cons) visible fun _ => rfl
  · obtain ⟨depth', step⟩ := exists_step_bracket closes held
    exact h.outcome_hold (.bracket depth' (within.step true c)) step (by simp)

theorem outcome_step (h : s.mode.Meets p) (hash : c ≠ '#') (slash : c ≠ '\\')
    (rereads : s.Rereads) : Outcome s c (s.step c) := by
  generalize mode : s.mode = m at h
  cases h with
  | plain => exact outcome_plain mode hash slash rereads
  | quoted m => exact outcome_quoted mode slash rereads
  | bracket depth => exact outcome_bracket mode rereads
  | bracketed depth m => exact outcome_bracket mode rereads

theorem meets_step (h : s.mode.Meets p) (hash : c ≠ '#') (slash : c ≠ '\\') :
    (s.step c).2.mode.Meets (p.step stageRules c) := by
  rw [mode_step]
  exact h.step hash slash

theorem Rereads.of_mem_word (h : s.Rereads) (plain : s.mode = .plain) {l : Lexeme}
    (hl : l ∈ s.word) : l.Rereads := by
  rw [word] at hl
  split at hl
  · contradiction
  · next nonempty =>
    rw [List.mem_singleton.mp hl]
    exact .word (h.held plain).trim
      { Text.trimmed_trim s.buffer with nonempty := by simpa using nonempty }

/-- A character keeps the scan, and the lexemes that it completes, such that they are read again. -/
theorem Outcome.rereads {r : List Lexeme × Scan} (h : Outcome s c r) (hs : s.Rereads) :
    (∀ l ∈ r.1, l.Rereads) ∧ r.2.Rereads := by
  cases h with
  | held buffer rereads => exact ⟨by simp, rereads⟩
  | whole spelling rereads => exact ⟨by simpa using rereads, rereads_start⟩
  | apart plain own rereads =>
      refine ⟨fun l hl => ?_, rereads_start⟩
      exact (List.mem_append.mp hl).elim (hs.of_mem_word plain) (rereads l)
  | mark plain mark =>
      subst mark
      exact ⟨fun l hl => hs.of_mem_word plain hl, rereads_mark _⟩

/-- What is held back after a character ends in it. -/
theorem Outcome.getLast? {r : List Lexeme × Scan} (h : Outcome s c r) (t : Text) :
    ∀ d ∈ (r.2.buffer ++ t).getLast?, d ∈ (s.buffer ++ c :: t).getLast? := by
  have ending (d : Char) (hd : d ∈ t.getLast?) : d ∈ (s.buffer ++ c :: t).getLast? := by
    rw [List.getLast?_append, List.getLast?_cons, hd]
    rfl
  cases h with
  | held buffer rereads =>
      intro d hd
      rw [buffer] at hd
      simpa using hd
  | whole spelling rereads => exact ending
  | apart plain own rereads => exact ending
  | mark plain mark =>
      intro d hd
      rw [List.getLast?_append_of_ne_nil _ (List.cons_ne_nil c t)]
      exact hd

/-- A word that is held back behind no white space starts the buffer. -/
theorem exists_word {d : Char} {u : Text} (buffer : s.buffer = d :: u)
    (visible : isBlank d = false) : ∃ v, s.word = [.word (d :: v)] := by
  have trimmed : s.buffer.trim = d :: u.trimEnd := by
    rw [buffer]
    exact Text.trim_append_cons [] visible u
  exact ⟨u.trimEnd, by rw [word, trimmed]; rfl⟩

/-- The first lexeme that is completed starts where the characters held back do. -/
theorem Outcome.first {r : List Lexeme × Scan} (h : Outcome s c r) {d : Char} {u : Text}
    (first : s.buffer ++ [c] = d :: u) (visible : isBlank d = false) :
    (r.1 = [] ∧ r.2.buffer = s.buffer ++ [c]) ∨
      ∃ l ls, r.1 = l :: ls ∧ l.spelling.head? = some d := by
  have words : s.buffer = [] ∧ s.word = [] ∧ c = d ∨ ∃ v, s.word = [.word (d :: v)] := by
    cases buffer : s.buffer with
    | nil =>
        rw [buffer] at first
        exact .inl ⟨rfl, by rw [word, buffer]; rfl, (List.cons.inj first).1⟩
    | cons e v =>
        rw [buffer] at first
        obtain rfl := (List.cons.inj first).1
        exact .inr (exists_word buffer visible)
  cases h with
  | held buffer rereads => exact .inl ⟨rfl, buffer⟩
  | whole spelling rereads => exact .inr ⟨_, [], rfl, by rw [spelling, first]; rfl⟩
  | apart plain own rereads =>
      rcases words with ⟨-, noWord, rfl⟩ | ⟨v, word⟩
      · rcases own with ⟨blank, -⟩ | ⟨-, rfl⟩
        · rw [visible] at blank
          contradiction
        · exact .inr ⟨_, [], by rw [noWord]; rfl, rfl⟩
      · exact .inr ⟨_, _, by rw [word]; rfl, rfl⟩
  | mark plain mark =>
      rcases words with ⟨nothing, noWord, -⟩ | ⟨v, word⟩
      · exact .inl ⟨noWord, by rw [nothing]; rfl⟩
      · exact .inr ⟨_, [], word, rfl⟩

end Scan

/-! ### Joined spellings -/

namespace Lexeme

/-- The spellings of lexemes with a space between each two of them. -/
def joined (ls : List Lexeme) : Text := Text.join " " (ls.map spelling)

variable {l k : Lexeme} {ls ks : List Lexeme}

theorem joined_cons_cons (l k : Lexeme) (ls : List Lexeme) :
    joined (l :: k :: ls) = l.spelling ++ [' '] ++ joined (k :: ls) := rfl

theorem head?_joined {d : Char} (first : l.spelling.head? = some d) (ls : List Lexeme) :
    (joined (l :: ls)).head? = some d := by
  cases ls with
  | nil => exact first
  | cons k ls => rw [joined_cons_cons, List.append_assoc, List.head?_append, first, Option.some_or]

/-- The joined spellings are read as the lexemes. -/
structure AllReread (ls : List Lexeme) : Prop where
  read : Scan.start.run (joined ls) = ls
  ending : ∀ c ∈ (joined ls).getLast?, isBlank c = false
  source : ∀ l ∈ ls, ∀ inside, (l.toToken inside).source? = some l.spelling

namespace AllReread

theorem nil : AllReread [] := ⟨rfl, by simp [joined, Text.join], by simp⟩

theorem joined_ne_nil (h : AllReread ls) (hne : ls ≠ []) : joined ls ≠ [] := by
  intro nothing
  have read := h.read
  rw [nothing] at read
  exact hne read.symm

theorem cons (hl : l.Rereads) (hs : AllReread ls) : AllReread (l :: ls) where
  read := by
    cases ls with
    | nil => exact hl.run_spelling
    | cons k ls =>
        rw [joined_cons_cons, Scan.run_append, hl.read, hs.read]
        rfl
  ending := by
    cases ls with
    | nil =>
        obtain ⟨c, last, visible⟩ := hl.ending
        intro d hd
        rwa [Option.mem_unique hd last]
    | cons k ls =>
        rw [joined_cons_cons, List.getLast?_append_of_ne_nil _ (hs.joined_ne_nil (by simp))]
        exact hs.ending
  source := by simpa using ⟨hl.source, hs.source⟩

theorem append_left (hk : AllReread ks) (hl : ∀ l ∈ ls, l.Rereads) : AllReread (ls ++ ks) := by
  induction ls with
  | nil => exact hk
  | cons l ls ih => exact .cons (hl l (by simp)) (ih fun k hk => hl k (by simp [hk]))

theorem of_forall (h : ∀ l ∈ ls, l.Rereads) : AllReread ls := by
  simpa using nil.append_left h

end AllReread

end Lexeme

namespace Scan

variable {s : Scan} {p : Place} {t : Text}

open Lexeme (AllReread joined)

/-- The mark that the end of the text puts in is read as any other. -/
theorem finish_quoted {m : QuoteMark} (quoted : s.mode = .quoted m) :
    s.finish = (s.step m.char).1 := by
  simp [finish, step, stepQuoted, quoted]

theorem joined_finish_bracket (bracket : s.mode.isBracket = true) : joined s.finish = s.buffer := by
  rw [finish_bracket bracket]
  exact s.spelling_bracket false

/-- A bracket that is cut off ends where the text does. -/
theorem allReread_finish_bracket (bracket : s.mode.isBracket = true) (hs : s.Rereads)
    (last : ∀ c ∈ s.buffer.getLast?, isBlank c = false) : AllReread s.finish where
  read := by
    rw [joined_finish_bracket bracket, run_eq_feed, hs.read]
    rfl
  ending := by rwa [joined_finish_bracket bracket]
  source := by
    rw [finish_bracket bracket]
    simp [Scan.bracket, Lexeme.toToken, Token.source?, Lexeme.spelling]

theorem allReread_finish (h : s.mode.Meets p) (hs : s.Rereads)
    (last : ∀ c ∈ s.buffer.getLast?, isBlank c = false) : AllReread s.finish := by
  generalize mode : s.mode = m at h
  cases h with
  | plain =>
      rw [finish_plain mode]
      exact .of_forall fun l => hs.of_mem_word mode
  | quoted m =>
      rw [finish_quoted mode]
      exact .of_forall ((outcome_quoted mode (by cases m <;> decide) hs).rereads hs).1
  | bracket depth => exact allReread_finish_bracket (by rw [mode]; rfl) hs last
  | bracketed depth m => exact allReread_finish_bracket (by rw [mode]; rfl) hs last

/-- Until the end of the text every lexeme is read again, and the one that the end completes is
read again where it stands. -/
theorem allReread_run (h : s.mode.Meets p) (raw : IsRaw t) (hs : s.Rereads)
    (last : ∀ c ∈ (s.buffer ++ t).getLast?, isBlank c = false) : AllReread (s.run t) := by
  induction t generalizing s p with
  | nil => exact allReread_finish h hs (by simpa using last)
  | cons c t ih =>
      obtain ⟨hash, slash⟩ := raw c (by simp)
      have outcome := outcome_step h hash slash hs
      obtain ⟨completed, rereads⟩ := outcome.rereads hs
      refine AllReread.append_left (ih (meets_step h hash slash) ?_ rereads ?_) completed
      · exact fun d hd => raw d (by simp [hd])
      · exact fun d hd => last d (outcome.getLast? t d hd)

theorem head?_joined_finish (h : s.mode.Meets p) {d : Char} {u : Text} (first : s.buffer = d :: u)
    (visible : isBlank d = false) : (joined s.finish).head? = some d := by
  generalize mode : s.mode = m at h
  cases h with
  | plain =>
      obtain ⟨v, word⟩ := exists_word first visible
      rw [finish_plain mode, word]
      rfl
  | quoted m =>
      rw [finish_open (m := m) (by rw [mode]; rfl), first]
      rfl
  | bracket depth => rw [joined_finish_bracket (by rw [mode]; rfl), first, List.head?_cons]
  | bracketed depth m => rw [joined_finish_bracket (by rw [mode]; rfl), first, List.head?_cons]

/-- The first lexeme starts where the text does. -/
theorem head?_joined_run (h : s.mode.Meets p) (raw : IsRaw t) (hs : s.Rereads) {d : Char}
    {u : Text} (first : s.buffer ++ t = d :: u) (visible : isBlank d = false) :
    (joined (s.run t)).head? = some d := by
  induction t generalizing s p with
  | nil => exact head?_joined_finish h (by simpa using first) visible
  | cons c t ih =>
      obtain ⟨hash, slash⟩ := raw c (by simp)
      have outcome := outcome_step h hash slash hs
      have begins : ∃ v, s.buffer ++ [c] = d :: v := by
        rcases List.append_eq_cons_iff.mp first with ⟨nothing, same⟩ | ⟨v, same, -⟩
        · exact ⟨[], by rw [nothing, (List.cons.inj same).1]; rfl⟩
        · exact ⟨v ++ [c], by rw [same]; rfl⟩
      obtain ⟨v, begins⟩ := begins
      rw [run]
      rcases outcome.first begins visible with ⟨nothing, buffer⟩ | ⟨l, ls, completed, spelled⟩
      · rw [nothing, List.nil_append]
        refine ih (meets_step h hash slash) (fun d hd => raw d (by simp [hd]))
          (outcome.rereads hs).2 ?_
        rw [buffer, List.append_assoc]
        exact first
      · rw [completed]
        exact Lexeme.head?_joined spelled _

end Scan

/-! ### The whole text -/

variable {t : Text}

theorem allReread_lexemes (raw : IsRaw t) : Lexeme.AllReread (lexemes t) :=
  Scan.allReread_run .plain raw.trim Scan.rereads_start (Text.trimmed_trim t).last

/-- What the lexemes of a text spell has no white space at its ends either. -/
theorem trimmed_joined_lexemes (raw : IsRaw t) : (Lexeme.joined (lexemes t)).Trimmed where
  first c hc := by
    cases trimmed : t.trim with
    | nil =>
        rw [lexemes, trimmed] at hc
        contradiction
    | cons d u =>
        have visible : isBlank d = false := (Text.trimmed_trim t).first d (by rw [trimmed]; rfl)
        have first : (Lexeme.joined (lexemes t)).head? = some d :=
          Scan.head?_joined_run .plain raw.trim Scan.rereads_start trimmed visible
        rw [Option.mem_unique hc first]
        exact visible
  last := (allReread_lexemes raw).ending

theorem lexemes_joined_lexemes (raw : IsRaw t) :
    lexemes (Lexeme.joined (lexemes t)) = lexemes t := by
  rw [lexemes, (trimmed_joined_lexemes raw).trim_eq, (allReread_lexemes raw).read]

theorem sourceText_tokensWithin (raw : IsRaw t) (levels : Nat) :
    Token.sourceText (tokensWithin (levels + 1) t) = Lexeme.joined (lexemes t) := by
  have sources : ((lexemes t).map (Lexeme.toToken (tokensWithin levels))).filterMap Token.source? =
      (lexemes t).map Lexeme.spelling := by
    rw [List.filterMap_map, List.filterMap_eq_map_iff_forall_eq_some]
    exact fun l hl => (allReread_lexemes raw).source l hl _
  rw [Token.sourceText, tokensWithin, sources]
  exact (trimmed_joined_lexemes raw).trim_eq

end Lexer

/-- The text rebuilt from the tokens of a text without escapes and comments is read as the same
tokens. Its quotes and brackets may be open at its end. -/
theorem tokenize_sourceText_tokenize {t : Text} (raw : Lexer.IsRaw t) :
    tokenize (Token.sourceText (tokenize t)) = tokenize t := by
  have source : Token.sourceText (tokenize t) = Lexer.Lexeme.joined (Lexer.lexemes t) :=
    Lexer.sourceText_tokensWithin raw 63
  rw [source, tokenize, tokenize, Lexer.maxNesting, Lexer.tokensWithin, Lexer.tokensWithin,
    Lexer.lexemes_joined_lexemes raw]

/-- A minus sign and a colon behind a tab, a mark inside a word, and brackets that stay open. -/
theorem tokenize_sourceText_tokenize_open :
    let t : Text := "a\t:-b'c'd,f\t(x]\t-\t: [\"y ) (z"
    Lexer.IsRaw t ∧ tokenize (Token.sourceText (tokenize t)) = tokenize t := by
  have raw : Lexer.IsRaw "a\t:-b'c'd,f\t(x]\t-\t: [\"y ) (z" := by decide
  exact ⟨raw, tokenize_sourceText_tokenize raw⟩

end LogQuery
