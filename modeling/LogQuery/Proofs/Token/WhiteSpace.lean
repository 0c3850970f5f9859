import LogQuery.Proofs.Token.Unspaced

/-!
# White space between tokens

White space outside of quotes and brackets parts tokens, but only the space and the two line breaks
do so everywhere. With all of it replaced by spaces, a text has no white space in its words, fields
and callees. So white space is alike, whichever of it is replaced, exactly in those texts that have
none there to begin with.
-/

namespace LogQuery

open Text (isBlank)

/-- Some of the white space outside of quotes and brackets is replaced by spaces. -/
inductive Respaced : Place → Text → Text → Prop
  | nil {p : Place} : Respaced p [] []
  | keep {p : Place} {c : Char} {t u : Text} (rest : Respaced (p.step stageRules c) t u) :
      Respaced p (c :: t) (c :: u)
  | space {p : Place} {c : Char} {t u : Text} (top : p.isTop = true) (blank : isBlank c = true)
      (rest : Respaced (p.step stageRules c) t u) : Respaced p (c :: t) (' ' :: u)

namespace Lexer

open Lexeme (Unspaced unspaced_append unspaced_singleton)

variable {t u : Text} {c : Char} {s : Scan} {p : Place}

namespace Scan

/-- Every character that is held back outside of quotes and brackets has the property. -/
def Holds (P : Char → Prop) (s : Scan) : Prop := s.mode = .plain → ∀ c ∈ s.held, P c

theorem holds_start {P : Char → Prop} : start.Holds P := fun _ _ h => absurd h List.not_mem_nil

theorem holds_of_ne {P : Char → Prop} (h : s.mode ≠ .plain) : s.Holds P :=
  fun plain => absurd plain h

/-- A bracket is closed by the character or holds it back. -/
theorem step_bracket_cases (depth : Nat) (w : Within) (held : List Char) (c : Char) :
    step ⟨.bracket depth w, held⟩ c = ([bracket ⟨.plain, c :: held⟩ true], start) ∨
      ∃ depth' w', step ⟨.bracket depth w, held⟩ c = ([], ⟨.bracket depth' w', c :: held⟩) := by
  by_cases closes : w = .outside ∧ isCloser c = true ∧ depth = 0
  · obtain ⟨rfl, closer, rfl⟩ := closes
    exact .inl (step_closer closer held)
  · obtain ⟨depth', step⟩ := exists_step_bracket closes held
    exact .inr ⟨depth', _, step⟩

/-- What a step holds back outside of quotes and brackets is the character or was held before. -/
theorem Holds.step {P : Char → Prop} (h : s.Holds P) (meets : s.mode.Meets p) (hash : c ≠ '#')
    (slash : c ≠ '\\') (hc : s.mode = .plain → isOpener c = false → P c) :
    (s.step c).2.Holds P := by
  obtain ⟨mode, held⟩ := s
  cases meets with
  | plain =>
      have longer (plain : isOpener c = false) : Holds P ⟨.plain, c :: held⟩ := fun _ d hd =>
        (List.mem_cons.mp hd).elim (fun eq => eq ▸ hc rfl plain) (h rfl d)
      cases effect hash slash with
      | cut ls next step _ fresh =>
          rw [step]
          rcases fresh with rfl | ⟨m, quoted⟩
          · exact holds_start
          · exact holds_of_ne (by simp [quoted])
      | taken taken =>
          rcases taken with rfl | opener
          · rw [step_colon]
            exact holds_start
          · rw [step_opener opener]
            exact holds_of_ne (by simp)
      | minus eq =>
          subst eq
          cases seen : Text.allBlank held.reverse with
          | true =>
              rw [step_minus_blank seen]
              exact holds_start
          | false =>
              rw [step_minus seen]
              exact longer (by decide)
      | hold step plain =>
          rw [step]
          exact longer plain
  | quoted m =>
      simp only [Scan.step, stepQuoted]
      split_ifs
      · exact holds_start
      · exact holds_of_ne (by simp [hold])
      · exact holds_of_ne (by simp [hold])
  | bracket depth =>
      rcases step_bracket_cases depth .outside held c with step | ⟨depth', w', step⟩ <;> rw [step]
      · exact holds_start
      · exact holds_of_ne (by simp)
  | bracketed depth m =>
      rcases step_bracket_cases depth (.inside m) held c with step | ⟨depth', w', step⟩ <;>
        rw [step]
      · exact holds_start
      · exact holds_of_ne (by simp)

/-- By induction on the text: a text that leaves no white space in a token is read alike whichever
white space is replaced. -/
theorem run_respaced (h : Respaced p t u) (meets : s.mode.Meets p)
    (clean : s.Holds (isOpener · = false)) (raw : IsRaw t) (spaced : Unspaced (s.run t)) :
    s.run u = s.run t := by
  induction h generalizing s with
  | nil => rfl
  | @keep p c t u _ ih =>
      obtain ⟨hash, slash⟩ := raw c (by simp)
      rw [run, unspaced_append] at spaced
      rw [run, run, ih (meets_step meets hash slash) (clean.step meets hash slash fun _ => id)
        (fun d hd => raw d (by simp [hd])) spaced.2]
  | @space p c t u top blank _ ih =>
      obtain ⟨hash, slash⟩ := raw c (by simp)
      have rest : IsRaw t := fun d hd => raw d (by simp [hd])
      obtain ⟨mode, held⟩ := s
      obtain rfl : mode = .plain := meets.isTop_iff.mp top
      have same := run_space blank (clean rfl) rest spaced
      have next : Mode.plain.Meets (p.step stageRules c) := by
        have after := meets.step hash slash
        rwa [Mode.step_plain_blank blank] at after
      rw [← same] at spaced ⊢
      rw [run, step_space rfl, unspaced_append] at spaced
      rw [run, run, step_space rfl, ih (s := start) next holds_start rest spaced.2]

end Scan

end Lexer

/-! ### Texts with white space replaced -/

/-- White space leads nowhere. -/
theorem Place.step_blank {p : Place} {c : Char} (top : p.isTop = true) (blank : isBlank c = true) :
    p.step stageRules c = p := by
  obtain ⟨depth, within, escaped⟩ := p
  simp only [isTop, Bool.and_eq_true, beq_iff_eq, Bool.not_eq_true'] at top
  obtain ⟨⟨rfl, rfl⟩, rfl⟩ := top
  have slash := Text.ne_of_isBlank blank (d := '\\') (by decide)
  simp [step, stageRules, slash, isOpener_of_isBlank blank, isCloser_of_isBlank blank, Within.step,
    QuoteMark.ofChar?_of_isBlank blank]

namespace Respaced

variable {p : Place} {t u : Text}

theorem map_isBlank (h : Respaced p t u) : u.map isBlank = t.map isBlank := by
  induction h with
  | nil => rfl
  | keep _ ih => rw [List.map_cons, List.map_cons, ih]
  | space _ blank _ ih => rw [List.map_cons, List.map_cons, ih, blank]; rfl

theorem take (h : Respaced p t u) (n : Nat) : Respaced p (t.take n) (u.take n) := by
  induction h generalizing n with
  | nil => simpa using .nil
  | keep _ ih =>
      cases n with
      | zero => exact .nil
      | succ n => exact .keep (ih n)
  | space top blank _ ih =>
      cases n with
      | zero => exact .nil
      | succ n => exact .space top blank (ih n)

theorem trimEnd (h : Respaced p t u) : Respaced p t.trimEnd u.trimEnd := by
  have length : t.trimEnd.length = u.trimEnd.length := by
    have pattern (v : Text) : v.trimEnd.length = ((v.map isBlank).reverse.dropWhile id).length := by
      rw [← List.map_reverse, List.dropWhile_map, List.length_map]
      simp [Text.trimEnd, Text.dropEndWhile]
    rw [pattern, pattern, h.map_isBlank]
  have short (v : Text) : v.trimEnd = v.take v.trimEnd.length := by
    obtain ⟨after, ending, -⟩ := Text.exists_trimEnd v
    exact List.prefix_iff_eq_take.mp ⟨after, ending.symm⟩
  rw [short t, short u, ← length]
  exact h.take _

theorem trimStart (h : Respaced {} t u) : Respaced {} t.trimStart u.trimStart := by
  induction t generalizing u with
  | nil => cases h; exact .nil
  | cons c t ih =>
      cases h with
      | @keep _ _ _ u rest =>
          cases blank : isBlank c with
          | true =>
              rw [Place.step_blank rfl blank] at rest
              rw [Text.trimStart, Text.trimStart, List.dropWhile_cons_of_pos blank,
                List.dropWhile_cons_of_pos blank]
              exact ih rest
          | false =>
              rw [Text.trimStart, Text.trimStart, List.dropWhile_cons_of_neg (by simp [blank]),
                List.dropWhile_cons_of_neg (by simp [blank])]
              exact .keep rest
      | @space _ _ _ u top blank rest =>
          rw [Place.step_blank rfl blank] at rest
          rw [Text.trimStart, Text.trimStart, List.dropWhile_cons_of_pos blank,
            List.dropWhile_cons_of_pos (by decide)]
          exact ih rest

theorem trim (h : Respaced {} t u) : Respaced {} t.trim u.trim := h.trimStart.trimEnd

end Respaced

/-- All white space outside of quotes and brackets replaced by spaces. -/
def spaceOut (p : Place) : Text → Text
  | [] => []
  | c :: t => (if p.isTop && isBlank c then ' ' else c) :: spaceOut (p.step stageRules c) t

theorem respaced_spaceOut (p : Place) (t : Text) : Respaced p t (spaceOut p t) := by
  induction t generalizing p with
  | nil => exact .nil
  | cons c t ih =>
      rw [spaceOut]
      split
      · next space =>
        rw [Bool.and_eq_true] at space
        exact .space space.1 space.2 (ih _)
      · exact .keep (ih _)

theorem take_spaceOut (p : Place) (t : Text) (n : Nat) :
    (spaceOut p t).take n = spaceOut p (t.take n) := by
  induction t generalizing p n with
  | nil => simp [spaceOut]
  | cons c t ih =>
      cases n with
      | zero => rfl
      | succ n => simp [spaceOut, ih]

/-- Before the first character that can be seen there are only spaces. -/
theorem mem_takeWhile_spaceOut {t : Text} {c : Char} (h : c ∈ (spaceOut {} t).takeWhile isBlank) :
    c = ' ' := by
  induction t with
  | nil => simp [spaceOut] at h
  | cons d t ih =>
      have top : Place.isTop {} = true := rfl
      rw [spaceOut, top, Bool.true_and] at h
      cases blank : isBlank d with
      | true =>
          have space : isBlank ' ' = true := by decide
          rw [if_pos blank, Place.step_blank top blank, List.takeWhile_cons_of_pos space] at h
          exact (List.mem_cons.mp h).elim id ih
      | false =>
          rw [if_neg (by simp [blank]), List.takeWhile_cons_of_neg (by simp [blank])] at h
          contradiction

namespace Lexer.Scan

open Lexeme (Unspaced unspaced_append unspaced_singleton)

variable {n : List Char} {t u : Text} {c : Char} {s : Scan} {p : Place}

/-- A bracket has been opened, and there is no white space before it. -/
def SpacedCallee (held : List Char) : Prop :=
  (∃ o ∈ held, isOpener o = true) ∧ ∀ c ∈ held.reverse.takeWhile (!isOpener ·), isBlank c = false

theorem SpacedCallee.open (h : ∀ c ∈ n, isOpener c = false ∧ isBlank c = false)
    (hc : isOpener c = true) : SpacedCallee (c :: n) := by
  refine ⟨⟨c, List.mem_cons_self, hc⟩, ?_⟩
  have callee : (c :: n).reverse.takeWhile (!isOpener ·) = n.reverse := by
    rw [List.reverse_cons, List.takeWhile_append_of_pos (by simpa using fun d hd => (h d hd).1)]
    simp [hc]
  rw [callee]
  exact fun d hd => (h d (List.mem_reverse.mp hd)).2

theorem SpacedCallee.cons (h : SpacedCallee n) (c : Char) : SpacedCallee (c :: n) := by
  obtain ⟨⟨o, ho, opens⟩, spaced⟩ := h
  refine ⟨⟨o, List.mem_cons_of_mem c ho, opens⟩, ?_⟩
  have short : (n.reverse.takeWhile (!isOpener ·)).length ≠ n.reverse.length := by
    intro same
    have all := List.takeWhile_eq_self_iff.mp
      ((List.takeWhile_prefix (!isOpener ·)).eq_of_length same) o (List.mem_reverse.mpr ho)
    simp [opens] at all
  rw [List.reverse_cons, List.takeWhile_append, if_neg short]
  exact spaced

/-- No white space is held back that could end up in a token. -/
structure Spaced (s : Scan) : Prop where
  word : s.Holds fun c => isOpener c = false ∧ isBlank c = false
  callee : s.mode.isBracket = true → SpacedCallee s.held

theorem spaced_start : start.Spaced := ⟨holds_start, fun h => absurd h (by decide)⟩

theorem spaced_quoted (m : QuoteMark) (held : List Char) : Spaced ⟨.quoted m, held⟩ :=
  ⟨holds_of_ne (by simp), fun h => absurd h (by simp [Mode.isBracket])⟩

theorem spaced_bracket {depth : Nat} {w : Within} (h : SpacedCallee n) :
    Spaced ⟨.bracket depth w, n⟩ :=
  ⟨holds_of_ne (by simp), fun _ => h⟩

theorem spaced_plain (h : ∀ c ∈ n, isOpener c = false ∧ isBlank c = false) : Spaced ⟨.plain, n⟩ :=
  ⟨fun _ => h, fun h => absurd h (by simp [Mode.isBracket])⟩

theorem unspaced_word (h : ∀ c ∈ n, isBlank c = false) : Unspaced (Scan.word ⟨.plain, n⟩) := by
  intro l hl c hc
  rw [Scan.word] at hl
  split at hl
  · contradiction
  · rw [List.mem_singleton.mp hl] at hc
    exact h c (List.mem_reverse.mp (Text.mem_of_mem_trim hc))

theorem unspaced_bracket (h : SpacedCallee n) (closed : Bool) :
    Unspaced [Scan.bracket ⟨.plain, n⟩ closed] :=
  unspaced_singleton.mpr h.2

theorem spaced_step_plain (h : ∀ c ∈ n, isOpener c = false ∧ isBlank c = false) (hash : c ≠ '#')
    (slash : c ≠ '\\') (hc : isBlank c = true → c = ' ') :
    Unspaced (Scan.step ⟨.plain, n⟩ c).1 ∧ (Scan.step ⟨.plain, n⟩ c).2.Spaced := by
  have word := unspaced_word fun d hd => (h d hd).2
  have longer (plain : isOpener c = false) (visible : isBlank c = false) :
      Spaced ⟨.plain, c :: n⟩ :=
    spaced_plain fun d hd => (List.mem_cons.mp hd).elim (fun eq => eq ▸ ⟨plain, visible⟩) (h d)
  cases effect hash slash with
  | cut ls next step spaced fresh =>
      rw [step]
      refine ⟨unspaced_append.mpr ⟨word, spaced⟩, ?_⟩
      rcases fresh with rfl | ⟨m, quoted⟩
      · exact spaced_start
      · obtain ⟨mode, held⟩ := next
        obtain rfl : mode = .quoted m := quoted
        exact spaced_quoted m held
  | taken taken =>
      rcases taken with rfl | opener
      · rw [step_colon]
        exact ⟨unspaced_singleton.mpr fun d hd => (h d (List.mem_reverse.mp hd)).2, spaced_start⟩
      · rw [step_opener opener]
        exact ⟨by simp [Unspaced], spaced_bracket (.open h opener)⟩
  | minus eq =>
      subst eq
      cases seen : Text.allBlank n.reverse with
      | true =>
          rw [step_minus_blank seen]
          exact ⟨unspaced_singleton.mpr (by simp [Lexeme.bareText, isBlank]), spaced_start⟩
      | false =>
          rw [step_minus seen]
          exact ⟨by simp [Unspaced], longer (by decide) (by decide)⟩
  | hold step plain =>
      cases blank : isBlank c with
      | true =>
          rw [hc blank, step_space rfl]
          exact ⟨word, spaced_start⟩
      | false =>
          rw [step]
          exact ⟨by simp [Unspaced], longer plain blank⟩

/-- Unless white space other than a space comes, none ends up in a token. -/
theorem Spaced.step (h : s.Spaced) (meets : s.mode.Meets p) (hash : c ≠ '#') (slash : c ≠ '\\')
    (hc : s.mode = .plain → isBlank c = true → c = ' ') :
    Unspaced (s.step c).1 ∧ (s.step c).2.Spaced := by
  have inBracket (depth : Nat) (w : Within) (held : List Char) (callee : SpacedCallee held) :
      Unspaced (Scan.step ⟨.bracket depth w, held⟩ c).1 ∧
        (Scan.step ⟨.bracket depth w, held⟩ c).2.Spaced := by
    rcases step_bracket_cases depth w held c with step | ⟨depth', w', step⟩ <;> rw [step]
    · exact ⟨unspaced_bracket (callee.cons c) true, spaced_start⟩
    · exact ⟨by simp [Unspaced], spaced_bracket (callee.cons c)⟩
  obtain ⟨mode, held⟩ := s
  cases meets with
  | plain => exact spaced_step_plain (h.word rfl) hash slash (hc rfl)
  | quoted m =>
      simp only [Scan.step, stepQuoted]
      split_ifs
      · exact ⟨unspaced_singleton.mpr (by simp [Lexeme.bareText]), spaced_start⟩
      · next escape => exact absurd (by simp_all) slash
      · exact ⟨by simp [Unspaced], spaced_quoted m _⟩
  | bracket depth => exact inBracket depth _ held (h.callee rfl)
  | bracketed depth m => exact inBracket depth _ held (h.callee rfl)

theorem Spaced.finish (h : s.Spaced) (meets : s.mode.Meets p) : Unspaced s.finish := by
  obtain ⟨mode, held⟩ := s
  cases meets with
  | plain => exact unspaced_word fun c hc => (h.word rfl c hc).2
  | quoted m => exact unspaced_singleton.mpr (by simp [Lexeme.bareText])
  | bracket depth => exact unspaced_bracket (h.callee rfl) false
  | bracketed depth m => exact unspaced_bracket (h.callee rfl) false

theorem unspaced_run_spaceOut (h : s.Spaced) (meets : s.mode.Meets p) (raw : IsRaw t) :
    Unspaced (s.run (spaceOut p t)) := by
  induction t generalizing s p with
  | nil => exact h.finish meets
  | cons c t ih =>
      obtain ⟨hash, slash⟩ := raw c (by simp)
      have rest : IsRaw t := fun d hd => raw d (by simp [hd])
      rw [spaceOut, run, unspaced_append]
      split
      · next space =>
        rw [Bool.and_eq_true] at space
        have plain := meets.isTop_iff.mp space.1
        obtain ⟨first, next⟩ := h.step meets (c := ' ') (by decide) (by decide) fun _ _ => rfl
        refine ⟨first, ih next ?_ rest⟩
        rw [Place.step_blank space.1 space.2, step_space plain]
        rw [plain] at meets
        exact meets
      · next kept =>
        obtain ⟨first, next⟩ := h.step meets hash slash fun plain blank =>
          absurd (by simp [meets.isTop_iff.mpr plain, blank]) kept
        exact ⟨first, ih next (meets_step meets hash slash) rest⟩

end Lexer.Scan

/-! ### Tokens -/

namespace Lexer

theorem unspaced_lexemes_iff (t : Text) :
    Lexeme.Unspaced (lexemes t) ↔ ∀ k ∈ tokenize t, ∀ c ∈ k.bareText, isBlank c = false := by
  simp [Lexeme.Unspaced, tokenize, maxNesting, tokensWithin]

/-- Where there are only spaces between tokens, no white space ends up in one. -/
theorem unspaced_lexemes_spaceOut {t : Text} (raw : IsRaw t) :
    Lexeme.Unspaced (lexemes (spaceOut {} t)) := by
  have spaces : ∀ c ∈ (spaceOut {} t).takeWhile isBlank, isBreak c = true := fun c hc => by
    rw [mem_takeWhile_spaceOut hc]
    rfl
  obtain ⟨after, ending, -⟩ := Text.exists_trimEnd (spaceOut {} t)
  rw [← run_trimEnd_start spaces, List.prefix_iff_eq_take.mp ⟨after, ending.symm⟩, take_spaceOut]
  exact Scan.unspaced_run_spaceOut Scan.spaced_start .plain
    fun c hc => raw c ((List.take_sublist _ t).subset hc)

end Lexer

open Lexer (IsRaw)

/-- In a text without escapes and comments, spaces can stand for all other white space outside of
quotes and brackets exactly if none of its words, fields and callees has white space in it. -/
theorem tokenize_respaced_iff {t : Text} (raw : IsRaw t) :
    (∀ u, Respaced {} t u → tokenize u = tokenize t) ↔
      ∀ k ∈ tokenize t, ∀ c ∈ k.bareText, isBlank c = false := by
  constructor
  · intro alike
    have spaced := Lexer.unspaced_lexemes_spaceOut raw
    rwa [Lexer.unspaced_lexemes_iff, alike _ (respaced_spaceOut {} t)] at spaced
  · intro spaced u respaced
    have alike : Lexer.lexemes u = Lexer.lexemes t :=
      Lexer.Scan.run_respaced respaced.trim .plain Lexer.Scan.holds_start raw.trim
        ((Lexer.unspaced_lexemes_iff t).mpr spaced)
    rw [tokenize, tokenize, Lexer.maxNesting, Lexer.tokensWithin, Lexer.tokensWithin, alike]

/-- Tabs behind words, before a minus sign, in quotes and in brackets. -/
theorem tokenize_respaced_between :
    let t : Text := "a\t, b\t\"c\td\"\t| (e\tf)\t-g"
    IsRaw t ∧ (∀ k ∈ tokenize t, ∀ c ∈ k.bareText, isBlank c = false) ∧
      Respaced {} t "a , b \"c\td\" | (e\tf) -g" ∧
      tokenize "a , b \"c\td\" | (e\tf) -g" = tokenize t := by
  intro t
  have raw : IsRaw t := by decide
  have tokens : tokenize t = [.word "a", .word ",", .word "b", .quote "\"c\td\"", .word "|",
      .bracket [] "(e\tf)" [.word "e\tf"], .word "-", .word "g"] := rfl
  have spaced : ∀ k ∈ tokenize t, ∀ c ∈ k.bareText, isBlank c = false := by
    simp [tokens, Token.bareText, isBlank]
  have respaced : Respaced {} t "a , b \"c\td\" | (e\tf) -g" := respaced_spaceOut {} t
  exact ⟨raw, spaced, respaced, (tokenize_respaced_iff raw).mpr spaced _ respaced⟩

/-- A tab before a bracket makes it the bracket of a call, whose name ends in the tab. -/
theorem tokenize_tab_bracket :
    let t : Text := "a\t(b)"
    IsRaw t ∧ Respaced {} t "a (b)" ∧ tokenize t = [.bracket "a\t" "(b)" [.word "b"]] ∧
      tokenize "a (b)" = [.word "a", .bracket [] "(b)" [.word "b"]] :=
  ⟨by decide, respaced_spaceOut {} "a\t(b)", rfl, rfl⟩

end LogQuery
