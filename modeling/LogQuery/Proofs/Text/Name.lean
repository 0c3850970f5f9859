import Mathlib
import LogQuery.Proofs.Text.Tight
import LogQuery.Quoting.Basic

/-!
# Names

Field names, result names and keywords are made of ASCII letters, digits, underscores and
points. None of these characters separates tokens, so a name is always one word. Lower case
keeps a name a name and is stable on it.
-/

namespace LogQuery.Text

/-- An ASCII letter or digit, an underscore or a point. -/
def isNameChar (c : Char) : Bool := c.isAlphanum || c == '_' || c == '.'

/-- A name: some name characters, at least one. -/
structure IsName (t : Text) : Prop where
  nonempty : t ≠ []
  chars : ∀ c ∈ t, isNameChar c = true

instance (t : Text) : Decidable t.IsName :=
  decidable_of_iff (t ≠ [] ∧ t.all isNameChar = true)
    ⟨fun h => ⟨h.1, List.all_eq_true.mp h.2⟩, fun h => ⟨h.nonempty, List.all_eq_true.mpr h.chars⟩⟩

/-- The code points of name characters. Those between are not all of this kind. -/
theorem bounds_of_isNameChar {c : Char} (h : isNameChar c = true) :
    46 ≤ c.toNat ∧ c.toNat ≤ 122 := by
  simp only [isNameChar, Char.isAlphanum, Char.isAlpha, Char.isUpper, Char.isLower, Char.isDigit,
    Bool.or_eq_true, Bool.and_eq_true, decide_eq_true_eq, beq_iff_eq, UInt32.le_iff_toNat_le,
    ge_iff_le] at h
  change 46 ≤ c.val.toNat ∧ c.val.toNat ≤ 122
  rcases h with (((h | h) | h) | rfl) | rfl
  · exact ⟨Nat.le_trans (by decide) h.1, Nat.le_trans h.2 (by decide)⟩
  · exact ⟨Nat.le_trans (by decide) h.1, Nat.le_trans h.2 (by decide)⟩
  · exact ⟨Nat.le_trans (by decide) h.1, Nat.le_trans h.2 (by decide)⟩
  · decide
  · decide

/-- A name character is none of the characters of a list that has no name characters. -/
theorem not_mem_of_isNameChar {c : Char} {cs : List Char} (h : isNameChar c = true)
    (hcs : cs.any isNameChar = false) : c ∉ cs := by
  intro hc
  exact List.any_eq_false.mp hcs c hc h

theorem ne_of_isNameChar {c d : Char} (h : isNameChar c = true) (hd : isNameChar d = false) :
    c ≠ d := by
  rintro rfl
  rw [hd] at h
  contradiction

theorem isBlank_of_isNameChar {c : Char} (h : isNameChar c = true) : isBlank c = false := by
  obtain ⟨low, high⟩ := bounds_of_isNameChar h
  rw [Bool.eq_false_iff]
  intro blank
  simp only [isBlank, Bool.or_eq_true, Bool.and_eq_true, beq_iff_eq, decide_eq_true_eq] at blank
  -- every white space character lies below or above the name characters
  have outside : c.toNat ≤ 32 ∨ 123 ≤ c.toNat := by
    rcases blank with (((((((((rfl | b) | rfl) | rfl) | rfl) | b) | rfl) | rfl) | rfl) | rfl) | rfl
    · decide
    · exact .inl (Nat.le_trans (show c.toNat ≤ '\r'.toNat from b.2) (by decide))
    · decide
    · decide
    · decide
    · exact .inr (Nat.le_trans (by decide) (show '\u2000'.toNat ≤ c.toNat from b.1))
    · decide
    · decide
    · decide
    · decide
    · decide
  omega

theorem isName_keyword (id : OperationId) : IsName id.keyword := by
  cases id <;> decide

/-- A text without need of quotes is no keyword in any case. -/
theorem keyword_ne_of_mustQuote {t : Text} (h : Quoting.mustQuote t = false) (id : OperationId) :
    id.keyword ≠ t.trim.lower := by
  simp only [Quoting.mustQuote, Bool.or_eq_false_iff, List.any_eq_false, beq_iff_eq] at h
  exact h.1.1 id (by cases id <;> decide)

namespace IsName

variable {t : Text}

theorem tight (h : t.IsName) : t.Tight :=
  .of_all h.nonempty fun c hc => isBlank_of_isNameChar (h.chars c hc)

theorem trim_eq (h : t.IsName) : t.trim = t := h.tight.trim_eq

theorem not_mem {c : Char} (h : t.IsName) (hc : isNameChar c = false) : c ∉ t :=
  fun hm => by simpa [hc] using h.chars c hm

/-- A name starts with none of the signs that open a token. -/
theorem head?_ne {c : Char} (h : t.IsName) (hc : isNameChar c = false) : t.head? ≠ some c :=
  fun hm => h.not_mem hc (List.mem_of_mem_head? hm)

theorem ne {u : Text} (h : t.IsName) (hu : ∃ c ∈ u, isNameChar c = false) : t ≠ u := by
  obtain ⟨c, hm, hc⟩ := hu
  rintro rfl
  exact h.not_mem hc hm

/-- A name neither starts nor ends with a sign. -/
theorem startsWith_eq {c : Char} (h : t.IsName) (hc : isNameChar c = false) :
    t.startsWith [c] = false := by
  rw [Bool.eq_false_iff]
  intro starts
  have start := List.isPrefixOf_iff_prefix.mp starts
  exact h.not_mem hc (start.subset (by simp))

theorem endsWith_eq {c : Char} (h : t.IsName) (hc : isNameChar c = false) :
    t.endsWith [c] = false := by
  rw [Bool.eq_false_iff]
  intro ends
  have ending := List.isSuffixOf_iff_suffix.mp ends
  exact h.not_mem hc (ending.subset (by simp))

end IsName

/-! ### Lower case -/

theorem toLower_lt {c : Char} (h : c.toNat < 128) : c.toLower.toNat < 128 := by
  by_cases upper : c.isUpper
  · have bound : c.toNat ≤ 90 := by
      simp only [Char.isUpper, decide_eq_true_eq, UInt32.le_iff_toNat_le] at upper
      exact upper.2
    rw [Char.toLower_eq_of_isUpper upper, Char.toNat_ofNat]
    split
    · omega
    · omega
  · rwa [Char.toLower_eq_of_not_isUpper upper]

theorem lowerAfter_eq_map {before t : Text} (h : ∀ c ∈ t, c.toNat < 128) :
    lowerAfter before t = t.map Char.toLower := by
  induction t generalizing before with
  | nil => rfl
  | cons c cs ih =>
      have small : c.toNat < 128 := h c (by simp)
      have notDotted : (c == '\u0130') = false := by
        rw [beq_eq_false_iff_ne]
        rintro rfl
        exact absurd small (by decide)
      have notSigma : (c == '\u03a3') = false := by
        rw [beq_eq_false_iff_ne]
        rintro rfl
        exact absurd small (by decide)
      rw [lowerAfter, ih fun d hd => h d (by simp [hd])]
      simp [notDotted, notSigma, lowerChar, small]

/-- Lower case twice is lower case once, on ASCII text. -/
theorem lower_lower {t : Text} (h : ∀ c ∈ t, c.toNat < 128) : lower (lower t) = lower t := by
  have small : ∀ c ∈ t.map Char.toLower, c.toNat < 128 := by
    simpa using fun c hc => toLower_lt (h c hc)
  rw [lower, lower, lowerAfter_eq_map h, lowerAfter_eq_map small, List.map_map]
  exact List.map_congr_left fun c _ => Char.toLower_toLower_eq_toLower c

/-- A character that is its own lower case form stays where it is. -/
theorem mem_lowerAfter {c : Char} (h : lowerChar c = c) (dotted : c ≠ '\u0130')
    (sigma : c ≠ '\u03a3') {t : Text} (hc : c ∈ t) (before : Text) : c ∈ lowerAfter before t := by
  induction t generalizing before with
  | nil => contradiction
  | cons d ds ih =>
      rw [lowerAfter]
      rcases List.mem_cons.mp hc with rfl | hc
      · simp [h, dotted, sigma]
      · have rest := ih hc (d :: before)
        split_ifs <;> simp [rest]

theorem IsName.small {t : Text} (h : t.IsName) : ∀ c ∈ t, c.toNat < 128 := fun c hc => by
  have := (bounds_of_isNameChar (h.chars c hc)).2
  omega

/-- White space has no other lower case form. -/
theorem isBlank_toLower {c : Char} (h : isBlank c = true) : isBlank c.toLower = true := by
  have notUpper : ¬ c.isUpper := by
    intro upper
    have name : isNameChar c = true := by
      simp [isNameChar, Char.isAlphanum, Char.isAlpha, upper]
    rw [isBlank_of_isNameChar name] at h
    contradiction
  rwa [Char.toLower_eq_of_not_isUpper notUpper]

theorem toLower_of_isDigit {c : Char} (h : c.isDigit = true) : c.toLower = c := by
  apply Char.toLower_eq_of_not_isUpper
  intro upper
  simp only [Char.isDigit, Char.isUpper, Bool.and_eq_true, decide_eq_true_eq,
    UInt32.le_iff_toNat_le, ge_iff_le] at h upper
  exact absurd (Nat.le_trans upper.1 h.2) (by decide)

/-- Only letters have another lower case form, so a star is the lower case of nothing else. -/
theorem toLower_eq_star {c : Char} (h : c.toLower = '*') : c = '*' := by
  have letter := Char.isLower_toLower_eq_isAlpha c
  have notUpper : ¬ c.isUpper := by
    intro upper
    rw [h, Char.isAlpha, upper] at letter
    contradiction
  rwa [Char.toLower_eq_of_not_isUpper notUpper] at h

theorem sameFold_star {t : Text} (h : t ≠ ['*']) : t.sameFold ['*'] = false := by
  rw [Bool.eq_false_iff]
  intro same
  rw [sameFold, beq_iff_eq] at same
  obtain ⟨c, ht, hc⟩ := List.map_eq_singleton_iff.mp same
  rw [ht, toLower_eq_star hc] at h
  contradiction

end LogQuery.Text
