import LogQuery.Proofs.Quoting.Enclosed
import LogQuery.Proofs.Token.Conservation

/-!
# Capturing a bracket

Behind an opening character a scan holds back everything up to the closer of the bracket, and
follows the quotes on its way so that it passes over the closers between marks. There it takes a
backslash for an escape between any two marks, backticks included. Quoted text knows no escapes
between backticks: a backslash in front of the closing backtick is part of the text. The two
disagree about a text between backticks that ends in an odd number of backslashes. It leaves the
capture inside a quote, and what is captured after that is not what was quoted.
-/

namespace LogQuery

namespace Text

/-- An odd number of backslashes at the end of the text: the last one is not paired off. -/
def endsInEscape (t : Text) : Bool := (t.reverse.takeWhile (· == '\\')).length % 2 == 1

@[simp] theorem endsInEscape_nil : endsInEscape [] = false := rfl

theorem endsInEscape_concat_slash (t : Text) : endsInEscape (t ++ ['\\']) = !endsInEscape t := by
  have parity (n : Nat) : ((n + 1) % 2 == 1) = !(n % 2 == 1) := by
    rcases Nat.mod_two_eq_zero_or_one n with h | h <;> simp [Nat.add_mod, h]
  rw [endsInEscape, endsInEscape, List.reverse_append, List.reverse_singleton,
    List.singleton_append, List.takeWhile_cons_of_pos rfl, List.length_cons, parity]

theorem endsInEscape_concat {c : Char} (hc : c ≠ '\\') (t : Text) :
    endsInEscape (t ++ [c]) = false := by
  rw [endsInEscape, List.reverse_append, List.reverse_singleton, List.singleton_append,
    List.takeWhile_cons_of_neg (by simpa using hc)]
  rfl

theorem endsInEscape_of_not_mem {t : Text} (h : '\\' ∉ t) : endsInEscape t = false := by
  cases t using List.reverseRecOn with
  | nil => rfl
  | append_singleton t c => exact endsInEscape_concat (fun slash => h (by simp [slash])) t

end Text

namespace Within

variable {m : QuoteMark} {w : Within} {t : Text}

/-- The place after a text, for a scan that takes escapes between all marks. -/
def after (w : Within) (t : Text) : Within := t.foldl (step true) w

@[simp] theorem after_nil (w : Within) : w.after [] = w := rfl

@[simp] theorem after_cons (w : Within) (c : Char) (t : Text) :
    w.after (c :: t) = (w.step true c).after t := rfl

@[simp] theorem after_append (w : Within) (t u : Text) : w.after (t ++ u) = (w.after t).after u :=
  List.foldl_append

/-- A character between two marks that is not the closing one. -/
theorem step_inside {c : Char} (h : c ≠ m.char) :
    (inside m).step true c = if c = '\\' then escaped m else inside m := by
  simp [step, h]

theorem step_mark_outside (m : QuoteMark) : outside.step true m.char = inside m := by
  simp [step]

theorem step_mark_inside (m : QuoteMark) : (inside m).step true m.char = outside := by
  cases m <;> rfl

theorem step_mark_inside_ne {d : QuoteMark} (h : d ≠ m) :
    (inside d).step true m.char = inside d := by
  cases d <;> cases m <;> first | contradiction | rfl

theorem step_outside_delimiter {c : Char} (h : isOpener c = true ∨ isCloser c = true) :
    outside.step true c = outside := by
  simp only [isOpener, isCloser, Bool.or_eq_true, beq_iff_eq] at h
  rcases h with ((rfl | rfl) | rfl) | ((rfl | rfl) | rfl) <;> rfl

/-- Between two marks, only a backslash that is not paired off makes a difference. -/
theorem after_inside (h : m.char ∉ t) :
    (inside m).after t = if t.endsInEscape then escaped m else inside m := by
  induction t using List.reverseRecOn with
  | nil => rfl
  | append_singleton t c ih =>
      simp only [List.mem_append, List.mem_singleton, not_or] at h
      rw [after_append, ih h.1, after_cons, after_nil]
      by_cases slash : c = '\\'
      · subst slash
        rw [Text.endsInEscape_concat_slash]
        cases Text.endsInEscape t
        · exact step_inside (Ne.symm h.2)
        · rfl
      · rw [Text.endsInEscape_concat slash]
        cases Text.endsInEscape t
        · simpa [slash] using step_inside (Ne.symm h.2)
        · rfl

/-- No character of the text is read outside of quotes. -/
def Stays : Within → Text → Prop
  | _, [] => True
  | w, c :: t => w ≠ outside ∧ Stays (w.step true c) t

theorem Stays.append {u : Text} (ht : w.Stays t) (hu : (w.after t).Stays u) : w.Stays (t ++ u) := by
  induction t generalizing w with
  | nil => exact hu
  | cons c t ih => exact ⟨ht.1, ih ht.2 hu⟩

/-- Nor is any of its starts left outside. -/
theorem Stays.after_ne {c : Char} {u : Text} (h : w.Stays (t ++ c :: u)) : w.after t ≠ outside := by
  induction t generalizing w with
  | nil => exact h.1
  | cons d t ih => exact ih h.2

/-- Between two marks nothing but the closing one leads outside. -/
theorem stays_of_not_mem (hw : w = inside m ∨ w = escaped m) (h : m.char ∉ t) : w.Stays t := by
  induction t generalizing w with
  | nil => trivial
  | cons c t ih =>
      simp only [List.mem_cons, not_or] at h
      have next : w.step true c = inside m ∨ w.step true c = escaped m := by
        rcases hw with rfl | rfl
        · rw [step_inside (Ne.symm h.1)]
          split
          · exact .inr rfl
          · exact .inl rfl
        · exact .inl rfl
      have quoted : w ≠ outside := by rcases hw with rfl | rfl <;> simp
      exact ⟨quoted, ih next h.2⟩

/-! ### Quoted texts -/

/-- Not behind a backslash. -/
def Settled (w : Within) : Prop := ∀ m, w ≠ escaped m

theorem settled_outside : outside.Settled := by simp [Settled]

theorem settled_inside (m : QuoteMark) : (inside m).Settled := by simp [Settled]

theorem settled_step_mark (w : Within) (m : QuoteMark) : (w.step true m.char).Settled := by
  cases w with
  | outside =>
      rw [step_mark_outside]
      exact settled_inside m
  | inside d =>
      by_cases same : d = m
      · subst same
        rw [step_mark_inside]
        exact settled_outside
      · rw [step_mark_inside_ne same]
        exact settled_inside d
  | escaped d => exact settled_inside d

/-- A comma and a space change nothing, unless the comma is escaped. -/
theorem after_separator (h : w.Settled) : w.after ", " = w := by
  cases w with
  | outside => rfl
  | inside m => cases m <;> rfl
  | escaped m => exact absurd rfl (h m)

/-- Not between two marks of this kind. -/
def Off (m : QuoteMark) (w : Within) : Prop := w ≠ inside m ∧ w ≠ escaped m

theorem off_outside (m : QuoteMark) : outside.Off m := by simp [Off]

theorem off_inside_iff {d m : QuoteMark} : (inside d).Off m ↔ d ≠ m := by simp [Off]

theorem off_escaped_iff {d m : QuoteMark} : (escaped d).Off m ↔ d ≠ m := by simp [Off]

theorem Off.step {c : Char} (h : w.Off m) (hc : c ≠ m.char) : (w.step true c).Off m := by
  cases w with
  | outside =>
      rw [Within.step]
      split
      · next k mark =>
        rw [QuoteMark.ofChar?_eq_some_iff.mp mark] at hc
        exact off_inside_iff.mpr fun same => hc (by rw [same])
      · exact off_outside m
  | inside d =>
      rw [Within.step]
      split_ifs
      · exact off_escaped_iff.mpr (off_inside_iff.mp h)
      · exact off_outside m
      · exact h
  | escaped d => exact off_inside_iff.mpr (off_escaped_iff.mp h)

theorem Off.after (h : w.Off m) (ht : m.char ∉ t) : (w.after t).Off m := by
  induction t generalizing w with
  | nil => exact h
  | cons c t ih =>
      simp only [List.mem_cons, not_or] at ht
      exact ih (h.step (Ne.symm ht.1)) ht.2

theorem Off.step_mark_ne (h : w.Off m) : w.step true m.char ≠ outside := by
  cases w with
  | outside => simp [step_mark_outside]
  | inside d => simp [step_mark_inside_ne (off_inside_iff.mp h)]
  | escaped d => simp [Within.step]

end Within

namespace Quoting

open Within

variable {m : QuoteMark} {t : Text}

theorem after_between_settled (w : Within) (m : QuoteMark) (t : Text) :
    (w.after (between m t)).Settled := by
  rw [between, ← List.cons_append, after_append, after_cons, after_nil]
  exact settled_step_mark _ m

/-- From outside, a quoted text is left again unless its closing mark is escaped. -/
theorem after_between_outside (h : m.char ∉ t) :
    outside.after (between m t) = outside ↔ t.endsInEscape = false := by
  rw [between, after_cons, step_mark_outside, after_append, after_inside h, after_cons, after_nil]
  cases t.endsInEscape
  · simp [step_mark_inside]
  · simp [step]

/-- From inside a quote, a quoted text never leads outside: its marks are taken the wrong way
round, or for part of the quote. -/
theorem after_between_inside (d : QuoteMark) (h : m.char ∉ t) :
    (inside d).after (between m t) ≠ outside := by
  have opened : ((inside d).step true m.char).Off m := by
    by_cases same : d = m
    · subst same
      rw [step_mark_inside]
      exact off_outside d
    · rw [step_mark_inside_ne same]
      exact off_inside_iff.mpr same
  rw [between, after_cons, after_append, after_cons, after_nil]
  exact (opened.after h).step_mark_ne

end Quoting

namespace Lexer.Scan

open Quoting

variable {w : Within} {m : QuoteMark} {depth : Nat} {held : List Char} {t : Text}

/-! ### What is captured -/

theorem step_bracket_quoted (h : w ≠ .outside) (depth : Nat) (held : List Char) (c : Char) :
    step ⟨.bracket depth w, held⟩ c = ([], ⟨.bracket depth (w.step true c), c :: held⟩) := by
  simp [step, stepBracket, hold, h]

theorem step_bracket_mark (m : QuoteMark) (depth : Nat) (held : List Char) :
    step ⟨.bracket depth .outside, held⟩ m.char =
      ([], ⟨.bracket depth (.inside m), m.char :: held⟩) := by
  cases m <;> rfl

theorem feed_bracket_stays (h : w.Stays t) :
    feed ⟨.bracket depth w, held⟩ t = ([], ⟨.bracket depth (w.after t), t.reverse ++ held⟩) := by
  induction t generalizing w held with
  | nil => rfl
  | cons c t ih =>
      rw [feed_cons, step_bracket_quoted h.1, ih h.2, Within.after_cons]
      simp

/-- A quoted text that leads outside with its closing mark only is captured whole. -/
theorem passed_between (stays : (Within.inside m).Stays t)
    (closed : (Within.inside m).after t = .inside m) : Passed (between m t) := by
  intro depth held
  rw [between, feed_cons, step_bracket_mark, feed_append, feed_bracket_stays stays, closed,
    feed_cons, step_bracket_quoted (by simp), Within.step_mark_inside]
  simp

/-- So it is where the mark does not stand inside, unless the closing one is escaped. -/
theorem passed_between_of_not_mem (h : m.char ∉ t) (paired : t.endsInEscape = false) :
    Passed (between m t) := by
  refine passed_between (Within.stays_of_not_mem (.inl rfl) h) ?_
  rw [Within.after_inside h, paired]
  rfl

theorem Passed.append {u : Text} (ht : Passed t) (hu : Passed u) : Passed (t ++ u) := by
  intro depth held
  rw [feed_append, ht, hu]
  simp

/-- A bracket inside brackets is passed over with what it holds. -/
theorem Passed.brackets {o d : Char} (ho : isOpener o = true) (hd : isCloser d = true)
    (h : Passed t) : Passed (o :: (t ++ [d])) := by
  intro depth held
  have opened : step ⟨.bracket depth .outside, held⟩ o =
      ([], ⟨.bracket (depth + 1) .outside, o :: held⟩) := by
    have noCloser : isCloser o = false := by
      simp only [isOpener, Bool.or_eq_true, beq_iff_eq] at ho
      rcases ho with (rfl | rfl) | rfl <;> rfl
    simp [step, stepBracket, hold, ho, noCloser]
  have closed (held : List Char) : step ⟨.bracket (depth + 1) .outside, held⟩ d =
      ([], ⟨.bracket depth .outside, d :: held⟩) := by
    simp [step, stepBracket, hold, hd]
  rw [feed_cons, opened, feed_append, h, feed_cons, closed]
  simp

/-- Unless it closes the bracket, a character is held back. -/
theorem exists_step_bracket {c : Char} (h : ¬(w = .outside ∧ isCloser c = true ∧ depth = 0))
    (held : List Char) : ∃ depth', step ⟨.bracket depth w, held⟩ c =
      ([], ⟨.bracket depth' (w.step true c), c :: held⟩) := by
  by_cases outside : w = .outside
  · subst outside
    cases closer : isCloser c with
    | true =>
        have stays := Within.step_outside_delimiter (.inr closer)
        cases depth with
        | zero => exact absurd ⟨rfl, closer, rfl⟩ h
        | succ depth =>
            exact ⟨depth, by simp [Scan.step, stepBracket, hold, closer, stays]⟩
    | false =>
        cases opener : isOpener c with
        | true =>
            have stays := Within.step_outside_delimiter (.inl opener)
            exact ⟨depth + 1, by simp [Scan.step, stepBracket, hold, closer, opener, stays]⟩
        | false => exact ⟨depth, by simp [Scan.step, stepBracket, hold, closer, opener]⟩
  · exact ⟨depth, step_bracket_quoted outside depth held c⟩

/-- A bracket is captured up to a closer outside quotes, or to the end of the text. -/
theorem feed_bracket_cases (depth : Nat) (w : Within) (held : List Char) (t : Text) :
    (∃ a c b, t = a ++ c :: b ∧ isCloser c = true ∧ w.after a = .outside ∧
      feed ⟨.bracket depth w, held⟩ (a ++ [c]) =
        ([bracket ⟨.plain, (a ++ [c]).reverse ++ held⟩ true], start)) ∨
    ∃ depth' w', feed ⟨.bracket depth w, held⟩ t =
      ([], ⟨.bracket depth' w', t.reverse ++ held⟩) := by
  induction t generalizing depth w held with
  | nil => exact .inr ⟨depth, w, rfl⟩
  | cons c t ih =>
      by_cases closes : w = .outside ∧ isCloser c = true ∧ depth = 0
      · obtain ⟨rfl, closer, rfl⟩ := closes
        refine .inl ⟨[], c, t, rfl, closer, rfl, ?_⟩
        rw [List.nil_append, feed_cons, step_closer closer]
        rfl
      · obtain ⟨depth', step⟩ := exists_step_bracket closes held
        rcases ih depth' (w.step true c) (c :: held) with
          ⟨a, d, b, rfl, closer, outside, fed⟩ | ⟨depth'', w', fed⟩
        · refine .inl ⟨c :: a, d, b, rfl, closer, outside, ?_⟩
          rw [List.cons_append, feed_cons, step, fed]
          simp
        · refine .inr ⟨depth'', w', ?_⟩
          rw [feed_cons, step, fed]
          simp

/-- What a callee and an opening bracket are read as, with a text behind them that is captured
whole, whatever follows. -/
theorem run_call_passed {callee : Text} (hp : ∀ c ∈ callee, isPlain c = true) (ht : Passed t)
    (u : Text) :
    (∃ a c b, u = a ++ c :: b ∧ isCloser c = true ∧ Within.outside.after a = .outside ∧
      start.run (callee ++ '(' :: (t ++ u)) =
        .bracket callee ('(' :: (t ++ a ++ [c])) true :: start.run b) ∨
    start.run (callee ++ '(' :: (t ++ u)) = [.bracket callee ('(' :: (t ++ u)) false] := by
  have opened : start.run (callee ++ '(' :: (t ++ u)) =
      run ⟨.bracket 0 .outside, t.reverse ++ '(' :: callee.reverse⟩ u := by
    rw [run_append, start, feed_plain hp, run, step_opener rfl, List.append_nil, run_append, ht]
    rfl
  have reversed (v : Text) : v.reverse ++ (t.reverse ++ '(' :: callee.reverse) =
      (callee ++ '(' :: (t ++ v)).reverse := by simp
  rcases feed_bracket_cases 0 .outside (t.reverse ++ '(' :: callee.reverse) u with
    ⟨a, c, b, rfl, closer, outside, fed⟩ | ⟨depth, w, fed⟩
  · refine .inl ⟨a, c, b, rfl, closer, outside, ?_⟩
    have split : a ++ c :: b = a ++ [c] ++ b := by simp
    rw [opened, split, run_append, fed, reversed, bracket_behind rfl hp, List.append_assoc]
    rfl
  · right
    rw [opened, run_eq_feed, fed, reversed]
    exact congrArg (fun l => [l]) (bracket_behind rfl hp (t ++ u) false)

/-- What a callee and an opening bracket are read as, whatever follows. -/
theorem run_call_cases {callee : Text} (hp : ∀ c ∈ callee, isPlain c = true) (t : Text) :
    (∃ a c b, t = a ++ c :: b ∧ isCloser c = true ∧ Within.outside.after a = .outside ∧
      start.run (callee ++ '(' :: t) = .bracket callee ('(' :: (a ++ [c])) true :: start.run b) ∨
    start.run (callee ++ '(' :: t) = [.bracket callee ('(' :: t) false] :=
  run_call_passed hp (t := []) (fun _ _ => rfl) t

end Lexer.Scan

end LogQuery
