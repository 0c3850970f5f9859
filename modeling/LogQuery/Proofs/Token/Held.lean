import LogQuery.Proofs.Token.Conservation

/-!
# Texts that are held back whole

From its start on, a scan holds most characters back until one of the others comes. A minus sign
is held back as well, but not where a word begins: there it is a word of its own. A text of such
characters is a word when a space follows it, and a field when a colon does. Names are held back
whole, and so are timestamps.
-/

namespace LogQuery

namespace Text

variable {t : Text}

theorem allBlank_iff : t.allBlank = true ↔ t.trimStart = [] := by
  rw [allBlank, List.all_eq_true, trimStart, List.dropWhile_eq_nil_iff]

theorem trimStart_append_of_ne_nil (h : t.trimStart ≠ []) (u : Text) :
    trimStart (t ++ u) = t.trimStart ++ u := by
  rw [trimStart, List.dropWhile_append, ← trimStart]
  exact if_neg (by simpa using h)

end Text

namespace Lexer

/-- A scan holds every character back. A minus sign is not the first one that can be seen. -/
structure IsHeld (t : Text) : Prop where
  chars : ∀ c ∈ t, isPlain c = true ∨ c = '-'
  first : t.trimStart.head? ≠ some '-'

namespace IsHeld

variable {t u : Text} {c : Char}

theorem nil : IsHeld [] := ⟨by simp, by simp [Text.trimStart]⟩

theorem of_append (h : IsHeld (t ++ u)) : IsHeld t where
  chars c hc := h.chars c (List.mem_append_left _ hc)
  first first := by
    have seen : t.trimStart ≠ [] := by
      intro nothing
      rw [nothing] at first
      contradiction
    apply h.first
    rw [Text.trimStart_append_of_ne_nil seen, List.head?_append_of_ne_nil _ seen, first]

theorem concat (h : IsHeld t) (hc : isPlain c = true ∨ c = '-' ∧ t.allBlank = false) :
    IsHeld (t ++ [c]) where
  chars d hd := by
    rcases List.mem_append.mp hd with before | last
    · exact h.chars d before
    · rw [List.mem_singleton.mp last]
      exact hc.imp_right And.left
  first := by
    by_cases seen : t.trimStart = []
    · rcases hc with plain | ⟨-, visible⟩
      · intro first
        have minus : '-' ∈ t ++ [c] :=
          (List.dropWhile_suffix Text.isBlank).subset (List.mem_of_mem_head? first)
        rcases List.mem_append.mp minus with before | last
        · have blank := List.dropWhile_eq_nil_iff.mp seen _ before
          exact absurd blank (by decide)
        · rw [← List.mem_singleton.mp last] at plain
          exact absurd plain (by decide)
      · rw [Text.allBlank_iff.mpr seen] at visible
        contradiction
    · rw [Text.trimStart_append_of_ne_nil seen, List.head?_append_of_ne_nil _ seen]
      exact h.first

/-- Trimming a text that is held back leaves one that is. -/
theorem trim (h : IsHeld t) : IsHeld t.trim where
  chars c hc := by
    obtain ⟨before, after, split, -, -⟩ := Text.exists_trim t
    refine h.chars c ?_
    rw [split]
    exact List.mem_append_left _ (List.mem_append_right _ hc)
  first first := by
    rw [(Text.trimmed_trim t).trimStart_eq] at first
    obtain ⟨after, ending, -⟩ := Text.exists_trimEnd t.trimStart
    apply h.first
    rw [ending, ← Text.trim, List.head?_append_of_ne_nil, first]
    intro nothing
    rw [nothing] at first
    contradiction

end IsHeld

/-! ### What a scan does with it -/

variable {t w : Text}

theorem Scan.step_minus {held : List Char} (h : Text.allBlank held.reverse = false) :
    step ⟨.plain, held⟩ '-' = ([], ⟨.plain, '-' :: held⟩) := by
  simp [step, stepPlain, hold, QuoteMark.ofChar?, isOpener, isBreak, buffer, h]

/-- Nothing is completed on the way. -/
theorem IsHeld.feed (h : IsHeld t) : Scan.start.feed t = ([], ⟨.plain, t.reverse⟩) := by
  induction t using List.reverseRecOn with
  | nil => rfl
  | append_singleton t c ih =>
      have last : Scan.step ⟨.plain, t.reverse⟩ c = ([], ⟨.plain, c :: t.reverse⟩) := by
        rcases h.chars c (by simp) with plain | rfl
        · exact Scan.step_plain plain _
        · refine Scan.step_minus (Bool.eq_false_iff.mpr fun blank => h.first ?_)
          rw [List.reverse_reverse, Text.allBlank_iff] at blank
          rw [Text.trimStart, List.dropWhile_append, ← Text.trimStart, blank]
          rfl
      rw [Scan.feed_append, ih h.of_append, Scan.feed_cons, last]
      simp

theorem IsHeld.feed_space (h : IsHeld w) (tight : w.Tight) :
    Scan.start.feed (w ++ [' ']) = ([.word w], .start) := by
  rw [Scan.feed_append, h.feed, Scan.feed_cons, Scan.step_space rfl, Scan.word_tight tight]
  rfl

theorem IsHeld.feed_colon (h : IsHeld w) :
    Scan.start.feed (w ++ [':']) = ([.field w], .start) := by
  rw [Scan.feed_append, h.feed, Scan.feed_cons, Scan.step_colon]
  simp

end Lexer

end LogQuery
