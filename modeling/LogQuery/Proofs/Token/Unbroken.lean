import LogQuery.Proofs.Token.Capture
import LogQuery.Proofs.Token.Unspaced
import LogQuery.Proofs.Token.Value

/-!
# Texts that are one word

A scan holds a text back whole as long as no character comes that means something to it; a
character behind a backslash never does. Such a text is one word. Of any other text no token has
a value that is nearly as long: one character at least goes to what breaks the text, and some
stand on the other side of it.

A text that ends behind a backslash takes the next character as well, even a space.
-/

namespace LogQuery

namespace Lexer

variable {t u : Text} {c : Char} {m : Mode} {l : Lexeme}

/-- A text that a scan holds back whole, and the mode that it ends in. -/
inductive Unbroken : Text → Mode → Prop
  | nil : Unbroken [] .plain
  | hold {t : Text} {c : Char} (h : Unbroken t .plain)
      (hc : isPlain c = true ∨ c = '-' ∧ t.allBlank = false) : Unbroken (t ++ [c]) .plain
  | slash {t : Text} (h : Unbroken t .plain) : Unbroken (t ++ ['\\']) .escaped
  | escaped {t : Text} {c : Char} (h : Unbroken t .escaped) : Unbroken (t ++ [c]) .plain

namespace Unbroken

/-- Behind whatever else is held back, it is held back as well. -/
theorem feed (h : Unbroken t m) (held : List Char) :
    Scan.feed ⟨.plain, held⟩ t = ([], ⟨m, t.reverse ++ held⟩) := by
  induction h with
  | nil => rfl
  | @hold t c h hc ih =>
      have last : Scan.step ⟨.plain, t.reverse ++ held⟩ c =
          ([], ⟨.plain, c :: (t.reverse ++ held)⟩) := by
        rcases hc with plain | ⟨rfl, visible⟩
        · exact Scan.step_plain plain _
        · refine Scan.step_minus ?_
          simp_all [Text.allBlank]
      rw [Scan.feed_append, ih, Scan.feed_cons, last]
      simp
  | @slash t h ih =>
      have last : Scan.step ⟨.plain, t.reverse ++ held⟩ '\\' =
          ([], ⟨.escaped, '\\' :: (t.reverse ++ held)⟩) := rfl
      rw [Scan.feed_append, ih, Scan.feed_cons, last]
      simp
  | @escaped t c h ih =>
      have last : Scan.step ⟨.escaped, t.reverse ++ held⟩ c =
          ([], ⟨.plain, c :: (t.reverse ++ held)⟩) := rfl
      rw [Scan.feed_append, ih, Scan.feed_cons, last]
      simp

/-- The mode is told by the backslashes at the end. -/
theorem mode_eq (h : Unbroken t m) : m = if t.endsInEscape then .escaped else .plain := by
  induction h with
  | nil => rfl
  | @hold t c h hc ih =>
      have slash : c ≠ '\\' := by
        rintro rfl
        simp [isPlain] at hc
      rw [Text.endsInEscape_concat slash]
      rfl
  | @slash t h ih =>
      rw [Text.endsInEscape_concat_slash]
      cases escape : t.endsInEscape with
      | false => rfl
      | true => simp [escape] at ih
  | @escaped t c h ih =>
      have escape : t.endsInEscape = true := by
        by_contra no
        simp [no] at ih
      by_cases slash : c = '\\'
      · rw [slash, Text.endsInEscape_concat_slash, escape]
        rfl
      · rw [Text.endsInEscape_concat slash]
        rfl

theorem finish (h : Unbroken t m) (held : List Char) :
    Scan.finish ⟨m, held⟩ = Scan.word ⟨.plain, held⟩ := by
  rw [h.mode_eq]
  split
  · rfl
  · rfl

theorem tokenize_eq (h : Unbroken t m) (tight : t.Tight) : tokenize t = [.word t] := by
  have lexemes : lexemes t = [.word t] := by
    rw [lexemes, tight.trim_eq, Scan.run_eq_feed, Scan.start, h.feed, List.append_nil, h.finish,
      Scan.word_tight tight]
    rfl
  rw [tokenize, maxNesting, tokensWithin, lexemes]
  rfl

/-- A space ends the word, unless it is escaped. -/
theorem spells (h : Unbroken t .plain) (tight : t.Tight) (levels : Nat) :
    Spells levels t [.word t] where
  tight := tight
  lexes := by
    have fed : Scan.start.feed (t ++ [' ']) = ([.word t], .start) := by
      rw [Scan.feed_append, Scan.start, h.feed, List.append_nil, Scan.feed_cons,
        Scan.step_space rfl, Scan.word_tight tight]
      rfl
    exact .of_feed fed

theorem append (ht : Unbroken t .plain) (hu : Unbroken u m) : Unbroken (t ++ u) m := by
  induction hu with
  | nil => rwa [List.append_nil]
  | @hold u c _ hc ih =>
      rw [← List.append_assoc]
      refine .hold ih (hc.imp_right fun ⟨minus, visible⟩ => ⟨minus, ?_⟩)
      rw [Text.allBlank, List.all_append, Bool.and_eq_false_iff]
      exact .inr visible
  | slash _ ih =>
      rw [← List.append_assoc]
      exact .slash ih
  | escaped _ ih =>
      rw [← List.append_assoc]
      exact .escaped ih

/-- A space that is escaped joins two texts. -/
theorem join (ht : Unbroken t .escaped) (hu : Unbroken u m) : Unbroken (t ++ ' ' :: u) m := by
  have joined := ht.escaped (c := ' ').append hu
  rwa [List.append_assoc] at joined

/-- A quote ends the word, even behind a space that is escaped. -/
theorem lexes_quote (ht : Unbroken t .escaped) (tight : t.Tight) {m : QuoteMark}
    (hu : Quoting.Between m u) (levels : Nat) :
    Lexes levels (t ++ ' ' :: Quoting.between m u) [.word t, .quote (Quoting.between m u)] := by
  have spaced : Unbroken (t ++ [' ']) .plain := .escaped ht
  have word : Scan.word ⟨.plain, (t ++ [' ']).reverse⟩ = [.word t] := by
    rw [List.reverse_append, Scan.word_trailing (by simp [Text.isBlank]), Scan.word_tight tight]
  have split : t ++ ' ' :: Quoting.between m u = t ++ [' '] ++ Quoting.between m u := by simp
  have fed : Scan.start.feed (t ++ ' ' :: Quoting.between m u) =
      ([.word t, .quote (Quoting.between m u)], .start) := by
    rw [split, Scan.feed_append, Scan.start, spaced.feed, List.append_nil, Scan.feed_between hu,
      word]
    rfl
  exact .of_feed fed

end Unbroken

/-! ### Texts that are not -/

/-- A character that is not held back behind the text. -/
structure Breaks (t : Text) (c : Char) : Prop where
  plain : isPlain c = false
  slash : c ≠ '\\'
  minus : c = '-' → t.allBlank = true

theorem unbroken_or_breaks (t : Text) : (∃ m, Unbroken t m) ∨
    ∃ k c r, t = k ++ c :: r ∧ Unbroken k .plain ∧ Breaks k c := by
  induction t using List.reverseRecOn with
  | nil => exact .inl ⟨_, .nil⟩
  | append_singleton t c ih =>
      rcases ih with ⟨m, h⟩ | ⟨k, d, r, rfl, h, breaks⟩
      · rw [h.mode_eq] at h
        split at h
        · exact .inl ⟨_, .escaped h⟩
        · by_cases slash : c = '\\'
          · subst slash
            exact .inl ⟨_, .slash h⟩
          · by_cases held : isPlain c = true ∨ c = '-' ∧ Text.allBlank t = false
            · exact .inl ⟨_, .hold h held⟩
            · simp only [not_or, not_and, Bool.not_eq_true, Bool.not_eq_false] at held
              exact .inr ⟨t, c, [], rfl, h, held.1, slash, held.2⟩
      · exact .inr ⟨k, d, r ++ [c], by simp, h, breaks⟩

/-- The part of a bracket behind its opening character, when something stands before that. -/
theorem Scan.exists_keeps_opener {d : Char} {k : Text} (hd : isOpener d = false)
    (hc : isOpener c = true) (depth : Nat) (within : Within) :
    ∃ u, Keeps ⟨.bracket depth within, c :: (d :: k).reverse⟩ u ∧ u.length ≤ k.length := by
  obtain ⟨callee, o, u, split, clean, first⟩ := exists_opener hc k
  have held : (c :: (d :: k).reverse).reverse = (d :: callee) ++ o :: u := by simp [split]
  refine ⟨u, .bracket held (by simpa [hd] using clean) first, ?_⟩
  have length := congrArg List.length split
  simp only [List.length_append, List.length_cons, List.length_nil] at length
  omega

/-- What the lexemes of a broken text hold is no longer than the part before the break, or it is
shorter than the text by two characters. -/
theorem exists_holds_of_breaks {d : Char} {k r : Text} (h : Unbroken (d :: k) .plain)
    (hd : isPlain d = true) (visible : Text.isBlank d = false) (breaks : Breaks (d :: k) c)
    (hl : l ∈ Scan.start.run (d :: k ++ c :: r)) :
    ∃ u, l.Holds u ∧ (u.length ≤ k.length + 1 ∨ u.length ≤ k.length + r.length) := by
  rw [Scan.run_append, Scan.start, h.feed, List.nil_append, List.append_nil, Scan.run,
    List.mem_append] at hl
  have before (hl : l ∈ Scan.word ⟨.plain, (d :: k).reverse⟩) :
      ∃ u, l.Holds u ∧ (u.length ≤ k.length + 1 ∨ u.length ≤ k.length + r.length) :=
    ⟨_, Scan.holds_of_mem_word hl, .inl (by simp [Scan.buffer])⟩
  have behind {s : Scan} {u : Text} (keeps : s.Keeps u) (hu : u.length ≤ k.length)
      (hl : l ∈ s.run r) :
      ∃ u, l.Holds u ∧ (u.length ≤ k.length + 1 ∨ u.length ≤ k.length + r.length) :=
    ⟨u ++ r, keeps.run r hl, .inr (by simpa using hu)⟩
  have fresh {s : Scan} (keeps : s.Keeps []) := behind keeps (Nat.zero_le _)
  cases mark : QuoteMark.ofChar? c with
  | some m =>
      obtain rfl := QuoteMark.ofChar?_eq_some_iff.mp mark
      rw [Scan.step, Scan.stepPlain, mark] at hl
      exact hl.elim before (fresh (.quoted rfl))
  | none =>
      by_cases hash : c = '#'
      · subst hash
        rw [Scan.step_hash rfl] at hl
        exact hl.elim before (fresh (.comment []))
      by_cases colon : c = ':'
      · subst colon
        rw [Scan.step_colon, List.mem_singleton] at hl
        refine hl.elim (fun field => ?_) (fresh Scan.keeps_start)
        rw [field, List.reverse_reverse]
        exact ⟨_, .field (.refl _), .inl (by simp)⟩
      cases opener : isOpener c with
      | true =>
          rw [Scan.step_opener opener] at hl
          obtain ⟨u, keeps, short⟩ := Scan.exists_keeps_opener (k := k)
            (Scan.not_isOpener_of_isPlain hd) opener 0 .outside
          exact hl.elim (fun none => absurd none List.not_mem_nil) (behind keeps short)
      | false =>
          cases separator : isBreak c with
          | true =>
              rw [step_separator separator, List.mem_append] at hl
              refine hl.elim (fun now => now.elim before fun single => ?_) (fresh Scan.keeps_start)
              split at single
              · contradiction
              · rw [List.mem_singleton.mp single]
                exact ⟨_, .word (.refl [c]), .inl (by simp)⟩
          | false =>
              have held :=
                Scan.isPlain_or_of_not_break mark hash breaks.slash colon opener separator
              have minus := held.resolve_left (by simp [breaks.plain])
              have blank := breaks.minus minus
              simp [Text.allBlank, visible] at blank

end Lexer

end LogQuery
