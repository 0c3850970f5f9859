import LogQuery.Proofs.Query.Form
import LogQuery.Proofs.Token.Separator

/-!
# Two ways to cut a text at its pipes

Stages are cut out of a text before it is read, by following quotes and brackets through it, and
out of its tokens after it is read. The two agree on texts without escapes and comments. The
modes of a scan then stand for the places of the cutter: a bracket that is captured whole is one
more level of depth. So both see a pipe at the top level of the same characters, and a text with
such a pipe is cut there into two texts that are read on their own.
-/

namespace LogQuery

namespace Lexer

/-- The mode of a scan and the place of a cutter between the same characters. -/
inductive Mode.Meets : Mode → Place → Prop
  | plain : Meets .plain {}
  | quoted (m : QuoteMark) : Meets (.quoted m) { within := .inside m }
  | bracket (depth : Nat) : Meets (.bracket depth .outside) { depth := depth + 1 }
  | bracketed (depth : Nat) (m : QuoteMark) :
      Meets (.bracket depth (.inside m)) { depth := depth + 1, within := .inside m }

/-- The text has neither escapes nor comments. -/
def IsRaw (t : Text) : Prop := ∀ c ∈ t, c ≠ '#' ∧ c ≠ '\\'

instance (t : Text) : Decidable (IsRaw t) :=
  decidable_of_iff (t.all (fun c => c != '#' && c != '\\') = true) (by simp [IsRaw])

namespace Mode.Meets

variable {m : Mode} {p : Place} {c : Char} {t : Text}

theorem isTop_iff (h : m.Meets p) : p.isTop = true ↔ m = .plain := by
  cases h <;> simp [Place.isTop]

theorem step_plain (hash : c ≠ '#') (slash : c ≠ '\\') :
    (Mode.plain.step c).Meets (Place.step stageRules {} c) := by
  cases mark : QuoteMark.ofChar? c with
  | some m =>
      obtain rfl := QuoteMark.ofChar?_eq_some_iff.mp mark
      cases m <;> exact .quoted _
  | none =>
      cases opener : isOpener c with
      | true => simpa [Mode.step, Place.step, stageRules, mark, hash, slash, opener] using bracket 0
      | false =>
          cases closer : isCloser c <;>
            simpa [Mode.step, Place.step, Within.step, stageRules, mark, hash, slash, opener,
              closer] using plain

/-- Neither a bracket nor a quote is missed or mistaken by one side. -/
theorem step (h : m.Meets p) (hash : c ≠ '#') (slash : c ≠ '\\') :
    (m.step c).Meets (p.step stageRules c) := by
  cases h with
  | plain => exact step_plain hash slash
  | quoted m =>
      by_cases closes : c = m.char
      · subst closes
        simpa [Mode.step, Place.step, Within.step, slash] using .plain
      · simpa [Mode.step, Place.step, Within.step, slash, closes] using .quoted m
  | bracket depth =>
      cases closer : isCloser c with
      | true =>
          have opener : isOpener c = false := by
            simp only [isCloser, Bool.or_eq_true, beq_iff_eq] at closer
            rcases closer with (rfl | rfl) | rfl <;> rfl
          cases depth with
          | zero => simpa [Mode.step, Place.step, stageRules, slash, opener, closer] using plain
          | succ depth =>
              simpa [Mode.step, Place.step, stageRules, slash, opener, closer] using bracket depth
      | false =>
          cases opener : isOpener c with
          | true =>
              simpa [Mode.step, Place.step, stageRules, slash, opener, closer] using
                bracket (depth + 1)
          | false =>
              cases mark : QuoteMark.ofChar? c with
              | some m =>
                  simpa [Mode.step, Place.step, Within.step, stageRules, slash, opener, closer,
                    mark] using bracketed depth m
              | none =>
                  simpa [Mode.step, Place.step, Within.step, stageRules, slash, opener, closer,
                    mark] using bracket depth
  | bracketed depth m =>
      by_cases closes : c = m.char
      · subst closes
        simpa [Mode.step, Place.step, Within.step, slash] using bracket depth
      · simpa [Mode.step, Place.step, Within.step, slash, closes] using bracketed depth m

theorem after (h : m.Meets p) (raw : IsRaw t) : ∃ q, (m.after t).Meets q := by
  induction t generalizing m p with
  | nil => exact ⟨p, h⟩
  | cons c t ih =>
      obtain ⟨hash, slash⟩ := raw c (by simp)
      exact ih (h.step hash slash) fun d hd => raw d (by simp [hd])

end Mode.Meets

/-- A text without escapes and comments ends outside quotes and brackets if none is open. -/
theorem endMode_eq_plain {t : Text} (raw : IsRaw t) (quote : openQuote? t = none)
    (bracket : endsInBracket t = false) : endMode t = .plain := by
  obtain ⟨p, meets⟩ := Mode.Meets.plain.after raw
  rw [openQuote?] at quote
  rw [endsInBracket] at bracket
  change (endMode t).Meets p at meets
  generalize endMode t = mode at *
  cases meets with
  | plain => rfl
  | quoted m => contradiction
  | bracket depth => contradiction
  | bracketed depth m => contradiction

/-! ### Top-level pipes -/

/-- Every pipe of the text that is read from this mode on is quoted or in a bracket. -/
def Mode.Covers (m : Mode) (t : Text) : Prop := ∀ a b, t = a ++ '|' :: b → m.after a ≠ .plain

namespace Mode.Covers

variable {m : Mode} {c : Char} {t : Text}

theorem nil : m.Covers [] := by
  intro a b h
  simp at h

theorem head (h : m.Covers (c :: t)) : ¬(m = .plain ∧ c = '|') := by
  rintro ⟨rfl, rfl⟩
  exact h [] t rfl rfl

theorem tail (h : m.Covers (c :: t)) : (m.step c).Covers t := by
  intro a b split
  exact h (c :: a) b (by rw [split, List.cons_append])

theorem cons (first : ¬(m = .plain ∧ c = '|')) (rest : (m.step c).Covers t) :
    m.Covers (c :: t) := by
  intro a b split plain
  cases a with
  | nil =>
      rw [List.nil_append, List.cons.injEq] at split
      exact first ⟨plain, split.1⟩
  | cons d a =>
      rw [List.cons_append, List.cons.injEq] at split
      obtain ⟨rfl, split⟩ := split
      exact rest a b split plain

end Mode.Covers

/-- A text is cut at its first top-level pipe, or it has none and stays whole. -/
theorem cutAt_cases {m : Mode} {p : Place} {t : Text} (h : m.Meets p) (raw : IsRaw t) :
    m.Covers t ∧ p.cutAt stageRules (· == '|') t = [t] ∨
      ∃ a b, t = a ++ '|' :: b ∧ m.Covers a ∧ m.after a = .plain ∧
        p.cutAt stageRules (· == '|') t = a :: Place.cutAt stageRules (· == '|') {} b := by
  induction t generalizing m p with
  | nil => exact .inl ⟨.nil, rfl⟩
  | cons c t ih =>
      obtain ⟨hash, slash⟩ := raw c (by simp)
      by_cases bar : m = .plain ∧ c = '|'
      · obtain ⟨rfl, rfl⟩ := bar
        cases h
        exact .inr ⟨[], t, rfl, .nil, rfl, rfl⟩
      · have uncut : (p.isTop && c == '|') = false := by
          rw [Bool.and_eq_false_iff]
          by_cases plain : m = .plain
          · exact .inr (by simpa using fun same => bar ⟨plain, same⟩)
          · exact .inl (by simpa using mt h.isTop_iff.mp plain)
        rcases ih (h.step hash slash) (fun d hd => raw d (by simp [hd])) with
          ⟨covers, whole⟩ | ⟨a, b, rfl, covers, plain, cut⟩
        · left
          refine ⟨.cons bar covers, ?_⟩
          rw [Place.cutAt, uncut, whole]
          rfl
        · right
          refine ⟨c :: a, b, rfl, .cons bar covers, plain, ?_⟩
          rw [Place.cutAt, uncut, cut]
          rfl

/-! ### Tokens that are pipes -/

/-- The text of a lexeme that is not a bracket. -/
def Lexeme.text? : Lexeme → Option Text
  | quote v | word v | field v | comment v => some v
  | bracket .. => none

theorem Lexeme.text?_toToken (read : Text → List Token) (l : Lexeme) :
    (l.toToken read).text? = l.text? := by
  cases l <;> rfl

namespace Scan

variable {s : Scan} {p : Place} {c : Char} {t : Text}

/-- No lexeme of the list is a pipe. -/
def NoBar (ls : List Lexeme) : Prop := ∀ l ∈ ls, l.text? ≠ some ['|']

/-- What is held back outside quotes and brackets has no pipe in it. -/
def HoldsNoBar (s : Scan) : Prop := s.mode = .plain → '|' ∉ s.held

theorem NoBar.nil : NoBar [] := fun _ h => absurd h List.not_mem_nil

theorem NoBar.singleton {l : Lexeme} (h : l.text? ≠ some ['|']) : NoBar [l] := by
  intro k hk
  rwa [List.mem_singleton.mp hk]

theorem NoBar.append {ls ks : List Lexeme} (hl : NoBar ls) (hk : NoBar ks) : NoBar (ls ++ ks) :=
  fun l h => (List.mem_append.mp h).elim (hl l) (hk l)

theorem noBar_word (h : '|' ∉ s.held) : NoBar s.word := by
  have kept : '|' ∉ s.buffer.trim := by
    intro bar
    obtain ⟨before, after, split, -, -⟩ := Text.exists_trim s.buffer
    have buffered : '|' ∈ s.buffer := by
      rw [split]
      simp [bar]
    exact h (List.mem_reverse.mp buffered)
  rw [word]
  split
  · exact .nil
  · refine .singleton fun bar => kept ?_
    rw [Option.some.inj bar]
    simp

/-- A quote ends in its mark. -/
theorem noBar_quote (v : Text) (m : QuoteMark) : NoBar [.quote (v ++ [m.char])] := by
  refine .singleton fun bar => ?_
  have last := congrArg List.getLast? (Option.some.inj bar)
  cases m <;> simp [QuoteMark.char] at last

theorem holdsNoBar_of_ne (h : s.mode ≠ .plain) : s.HoldsNoBar := fun plain => absurd plain h

theorem holdsNoBar_start : start.HoldsNoBar := fun _ => List.not_mem_nil

theorem noBar_stepPlain (hash : c ≠ '#') (slash : c ≠ '\\') (bar : c ≠ '|') (h : '|' ∉ s.held) :
    NoBar (s.stepPlain c).1 ∧ (s.stepPlain c).2.HoldsNoBar := by
  have longer : '|' ∉ c :: s.held := by simp [bar.symm, h]
  rw [stepPlain]
  split
  · exact ⟨noBar_word h, holdsNoBar_of_ne (by simp)⟩
  split_ifs with isSlash isHash colon opener minus separator space
  · exact absurd (eq_of_beq isSlash) slash
  · exact absurd (eq_of_beq isHash) hash
  · refine ⟨.singleton fun field => h ?_, holdsNoBar_start⟩
    rw [← List.mem_reverse]
    change '|' ∈ s.buffer
    rw [Option.some.inj field]
    simp
  · exact ⟨.nil, holdsNoBar_of_ne (by simp [hold])⟩
  · exact ⟨.singleton (by simp [Lexeme.text?]), holdsNoBar_start⟩
  · exact ⟨(noBar_word h).append .nil, holdsNoBar_start⟩
  · exact ⟨(noBar_word h).append (.singleton (by simp [Lexeme.text?, bar])), holdsNoBar_start⟩
  · exact ⟨.nil, fun _ => longer⟩

theorem noBar_stepBracket {depth : Nat} {within : Within} :
    NoBar (s.stepBracket depth within c).1 ∧ (s.stepBracket depth within c).2.HoldsNoBar := by
  unfold stepBracket
  split_ifs
  · cases depth with
    | zero => exact ⟨.singleton (by simp [bracket, Lexeme.text?]), holdsNoBar_start⟩
    | succ depth => exact ⟨.nil, holdsNoBar_of_ne (by simp [hold])⟩
  · exact ⟨.nil, holdsNoBar_of_ne (by simp [hold])⟩
  · exact ⟨.nil, holdsNoBar_of_ne (by simp [hold])⟩

theorem noBar_step (h : s.mode.Meets p) (hash : c ≠ '#') (slash : c ≠ '\\')
    (covered : ¬(s.mode = .plain ∧ c = '|')) (held : s.HoldsNoBar) :
    NoBar (s.step c).1 ∧ (s.step c).2.HoldsNoBar := by
  obtain ⟨mode, held'⟩ := s
  cases h with
  | plain =>
      exact noBar_stepPlain hash slash (fun bar => covered ⟨rfl, bar⟩) (held rfl)
  | quoted m =>
      simp only [step, stepQuoted]
      split_ifs with closes
      · obtain rfl := eq_of_beq closes
        rw [buffer_hold]
        exact ⟨noBar_quote _ m, holdsNoBar_start⟩
      · exact ⟨.nil, holdsNoBar_of_ne (by simp [hold])⟩
      · exact ⟨.nil, holdsNoBar_of_ne (by simp [hold])⟩
  | bracket depth => exact noBar_stepBracket
  | bracketed depth m => exact noBar_stepBracket

theorem noBar_finish (h : s.mode.Meets p) (held : s.HoldsNoBar) : NoBar s.finish := by
  obtain ⟨mode, held'⟩ := s
  cases h with
  | plain => exact noBar_word (held rfl)
  | quoted m =>
      rw [finish_open rfl]
      exact noBar_quote _ m
  | bracket depth => exact .singleton (by simp [bracket, Lexeme.text?])
  | bracketed depth m => exact .singleton (by simp [bracket, Lexeme.text?])

theorem noBar_run (h : s.mode.Meets p) (raw : IsRaw t) (covers : s.mode.Covers t)
    (held : s.HoldsNoBar) : NoBar (s.run t) := by
  induction t generalizing s p with
  | nil => exact noBar_finish h held
  | cons c t ih =>
      obtain ⟨hash, slash⟩ := raw c (by simp)
      obtain ⟨first, held⟩ := noBar_step h hash slash covers.head held
      have meets := h.step hash slash
      have rest := covers.tail
      rw [← mode_step] at meets rest
      rw [run]
      intro l hl
      exact (List.mem_append.mp hl).elim (first l)
        (ih meets (fun d hd => raw d (by simp [hd])) rest held l)

end Scan

/-- White space at the ends of a text has no part in what is read inside it. -/
theorem Mode.Covers.trim {t : Text} (h : Mode.plain.Covers t) : Mode.plain.Covers t.trim := by
  obtain ⟨before, after, ends, blank, -⟩ := Text.exists_trim t
  intro a b split plain
  refine h (before ++ a) (b ++ after) ?_ ?_
  · rw [ends, split]
    simp
  · rw [Mode.after_append, Mode.after_plain_blank blank, plain]

theorem IsRaw.trim {t : Text} (h : IsRaw t) : IsRaw t.trim := by
  obtain ⟨before, after, ends, -, -⟩ := Text.exists_trim t
  intro c hc
  refine h c ?_
  rw [ends]
  simp [hc]

/-- The tokens of a text whose pipes are all quoted or in brackets are no pipes. -/
theorem hasText_bar_of_covers {t : Text} (raw : IsRaw t) (covers : Mode.plain.Covers t) :
    ∀ k ∈ tokenize t, k.hasText ['|'] = false := by
  intro k hk
  rw [tokenize, maxNesting, tokensWithin] at hk
  obtain ⟨l, hl, rfl⟩ := List.mem_map.mp hk
  rw [Token.hasText, Lexeme.text?_toToken]
  have start : Scan.start.mode.Meets {} := .plain
  simpa using Scan.noBar_run start raw.trim covers.trim Scan.holdsNoBar_start l hl

end Lexer

namespace Segment

/-- The parts, without the last one if it is empty. -/
def dropEmptyEnd {α : Type} : List (List α) → List (List α)
  | [] => []
  | [part] => if part.isEmpty then [] else [part]
  | part :: parts => part :: dropEmptyEnd parts

theorem dropEmptyEnd_cons {α : Type} {part : List α} {parts : List (List α)} (h : parts ≠ []) :
    dropEmptyEnd (part :: parts) = part :: dropEmptyEnd parts := by
  cases parts with
  | nil => contradiction
  | cons next parts => rfl

end Segment

theorem Place.cutAt_ne_nil (r : PlaceRules) (cut : Char → Bool) (p : Place) (t : Text) :
    p.cutAt r cut t ≠ [] := by
  cases t with
  | nil => simp [cutAt]
  | cons c cs =>
      rw [cutAt]
      split
      · simp
      · split <;> simp

theorem tokenize_trim (t : Text) : tokenize t.trim = tokenize t := by
  rw [tokenize, tokenize, Lexer.maxNesting, Lexer.tokensWithin, Lexer.tokensWithin, Lexer.lexemes,
    Lexer.lexemes, Text.trim_trim]

open Lexer (IsRaw) in
/-- Cutting a text at its pipes and reading the trimmed parts gives the stages of its tokens. At
the end of the text a part without tokens is no stage. -/
theorem stages_tokenize {t : Text} (raw : IsRaw t)
    (spaces : ∀ c ∈ t, Text.isBlank c = true → c ∈ [' ', '\n', '\r']) :
    Segment.dropEmptyEnd ((stageTexts t).map fun part => tokenize part.trim) =
      Segment.stages (tokenize t) := by
  simp only [tokenize_trim]
  induction hn : t.length using Nat.strong_induction_on generalizing t with
  | _ n ih =>
    rcases Lexer.cutAt_cases Lexer.Mode.Meets.plain raw with
      ⟨covers, whole⟩ | ⟨a, b, rfl, covers, plain, cut⟩
    · have noBar := Lexer.hasText_bar_of_covers raw covers
      rw [stageTexts, whole, List.map_cons, List.map_nil]
      cases none : tokenize t with
      | nil => rfl
      | cons k ks =>
          rw [none] at noBar
          exact (Segment.splitAt_of_none (by simp) noBar).symm
    · have rest : Segment.dropEmptyEnd ((stageTexts b).map tokenize) =
          Segment.stages (tokenize b) :=
        ih b.length (by simp [← hn]; omega) (fun c hc => raw c (by simp [hc]))
          (fun c hc => spaces c (by simp [hc])) rfl
      have noBar := Lexer.hasText_bar_of_covers (fun c hc => raw c (by simp [hc])) covers
      have gap : ∀ d ∈ b.takeWhile Text.isBlank, Lexer.isBreak d = true := by
        intro d hd
        have member : d ∈ b := (List.takeWhile_sublist _).subset hd
        have space := spaces d (by simp [member]) (List.mem_takeWhile_imp hd)
        simp only [List.mem_cons, List.not_mem_nil, or_false] at space
        rcases space with rfl | rfl | rfl <;> rfl
      have first : Segment.stages (tokenize a ++ .word ['|'] :: tokenize b) =
          tokenize a :: Segment.stages (tokenize b) :=
        Segment.splitAt_append noBar rfl
      have nonempty : (stageTexts b).map tokenize ≠ [] := by
        simpa [stageTexts] using Place.cutAt_ne_nil _ _ _ b
      rw [tokenize_separator (by simp) plain gap, first, ← rest, stageTexts, cut, List.map_cons]
      exact Segment.dropEmptyEnd_cons nonempty

/-- A stray closer, a bracket closed by one of another kind, and a quote left open. -/
theorem stages_tokenize_stray_and_open :
    let t : Text := "a) | b(c|d] ||\n'e|"
    Lexer.IsRaw t ∧ (∀ c ∈ t, Text.isBlank c = true → c ∈ [' ', '\n', '\r']) ∧
      Segment.stages (tokenize t) =
        [[.word "a)"], [.bracket "b" "(c|d]" [.word "c", .word "|", .word "d"]], [],
          [.quote "'e|'"]] ∧
      Segment.dropEmptyEnd ((stageTexts t).map fun part => tokenize part.trim) =
        Segment.stages (tokenize t) := by
  intro t
  have raw : Lexer.IsRaw t := by decide
  have spaces : ∀ c ∈ t, Text.isBlank c = true → c ∈ [' ', '\n', '\r'] := by simp [t, Text.isBlank]
  exact ⟨raw, spaces, rfl, stages_tokenize raw spaces⟩

end LogQuery
