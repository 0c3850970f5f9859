import LogQuery.Proofs.Text.Name
import LogQuery.Proofs.Text.Pieces
import LogQuery.Proofs.Text.Visible
import LogQuery.Text.Search

/-!
# The words of a text

A word of a text is a run of word characters that is as long as possible. A search for keywords
between word boundaries finds one exactly if some word of the text is the keyword, up to case. So
nothing but the words of a text decides such a search, and cutting the text at any other character
loses none of them.
-/

namespace LogQuery.Text

variable {c : Char} {t u w : Text}

/-- The longest runs of word characters. -/
def wordRuns (t : Text) : List Text := pieces (fun c => !isWordChar c) t

theorem wordRuns_append_cons (t : Text) (h : isWordChar c = false) (u : Text) :
    wordRuns (t ++ c :: u) = wordRuns t ++ wordRuns u :=
  pieces_append_cons t (by simp [h]) u

theorem wordRuns_cons (h : isWordChar c = false) (u : Text) : wordRuns (c :: u) = wordRuns u :=
  pieces_cons (by simp [h]) u

theorem wordRuns_concat (t : Text) (h : isWordChar c = false) :
    wordRuns (t ++ [c]) = wordRuns t :=
  pieces_concat t (by simp [h])

theorem wordRuns_of_word (h : ∀ c ∈ w, isWordChar c = true) (nonempty : w ≠ []) :
    wordRuns w = [w] :=
  pieces_of_unbroken (fun c hc => by simp [h c hc]) nonempty

/-- Two texts of which the second does not go on with a word of the first. -/
theorem wordRuns_append (t : Text) (outside : startsOutsideWord u = true) :
    wordRuns (t ++ u) = wordRuns t ++ wordRuns u := by
  cases u with
  | nil => simp [wordRuns]
  | cons c u =>
      have separator : isWordChar c = false := by simpa [startsOutsideWord] using outside
      rw [wordRuns_append_cons t separator, wordRuns_cons separator]

/-- The code points of white space. -/
def blankCodes : List Nat :=
  [9, 10, 11, 12, 13, 32, 0x85, 0xa0, 0x1680, 0x2000, 0x2001, 0x2002, 0x2003, 0x2004, 0x2005,
   0x2006, 0x2007, 0x2008, 0x2009, 0x200a, 0x2028, 0x2029, 0x202f, 0x205f, 0x3000]

theorem toNat_mem_blankCodes (h : isBlank c = true) : c.toNat ∈ blankCodes := by
  simp only [isBlank, Bool.or_eq_true, Bool.and_eq_true, beq_iff_eq, decide_eq_true_eq] at h
  have between {a b : Char} (low : a ≤ c) (high : c ≤ b) : a.toNat ≤ c.toNat ∧ c.toNat ≤ b.toNat :=
    ⟨low, high⟩
  rcases h with (((((((((rfl | ⟨low, high⟩) | rfl) | rfl) | rfl) | ⟨low, high⟩) | rfl) | rfl) |
    rfl) | rfl) | rfl
  · decide
  · have bounds : 9 ≤ c.toNat ∧ c.toNat ≤ 13 := between low high
    simp only [blankCodes, List.mem_cons]
    omega
  · decide
  · decide
  · decide
  · have bounds : 0x2000 ≤ c.toNat ∧ c.toNat ≤ 0x200a := between low high
    simp only [blankCodes, List.mem_cons]
    omega
  · decide
  · decide
  · decide
  · decide
  · decide

/-- White space is no part of a word. -/
theorem isWordChar_of_isBlank (h : isBlank c = true) : isWordChar c = false := by
  have outside : ∀ n ∈ blankCodes, isWordChar (Char.ofNat n) = false := by
    decide +kernel
  have known := outside c.toNat (toNat_mem_blankCodes h)
  rwa [Char.ofNat_toNat] at known

theorem wordRuns_trim (t : Text) : wordRuns t.trim = wordRuns t := by
  obtain ⟨before, after, split, blank, blank'⟩ := exists_trim t
  have separator {g : Text} (hg : ∀ c ∈ g, isBlank c = true) : ∀ c ∈ g, (!isWordChar c) = true :=
    fun c hc => by simp [isWordChar_of_isBlank (hg c hc)]
  conv_rhs => rw [split]
  rw [wordRuns, wordRuns, pieces_trailing _ (separator blank'), pieces_leading (separator blank)]

/-! ### Searching for words -/

theorem afterWord?_eq_some_iff {k t r : Text} :
    afterWord? k t = some r ↔ ∃ m, t = m ++ r ∧ m.map foldChar = k := by
  induction k generalizing t with
  | nil => simp [afterWord?, eq_comm]
  | cons d k ih =>
      cases t with
      | nil => simp [afterWord?]
      | cons c t =>
          rw [afterWord?]
          constructor
          · intro found
            split at found
            · next same =>
              obtain ⟨m, rfl, rfl⟩ := ih.mp found
              exact ⟨c :: m, rfl, by simpa using same⟩
            · contradiction
          · rintro ⟨m, split, folded⟩
            cases m with
            | nil => contradiction
            | cons a m =>
                obtain ⟨rfl, rfl⟩ := List.cons.inj split
                obtain ⟨same, rest⟩ := List.cons.inj folded
                rw [if_pos (by simpa using same)]
                exact ih.mpr ⟨m, rfl, rest⟩

/-- Keywords whose letters are folded from word characters only. -/
def AreWords (keywords : List Text) : Prop :=
  ∀ k ∈ keywords, k ≠ [] ∧ ∀ c, foldChar c ∈ k → isWordChar c = true

section Search

variable {keywords : List Text}

theorem AreWords.isWordChar {m : Text} (h : AreWords keywords) (hm : m.map foldChar ∈ keywords) :
    ∀ c ∈ m, isWordChar c = true :=
  fun c hc => (h _ hm).2 c (List.mem_map_of_mem hc)

/-- A keyword stands at the start of the text exactly if the word there is the keyword. -/
theorem any_afterWord?_iff (h : AreWords keywords) (t : Text) :
    (keywords.any fun k => (afterWord? k t).any startsOutsideWord) = true ↔
      (t.takeWhile isWordChar).map foldChar ∈ keywords := by
  rw [List.any_eq_true]
  constructor
  · rintro ⟨k, hk, found⟩
    obtain ⟨r, found, outside⟩ := (Option.any_eq_true _ _).mp found
    obtain ⟨m, rfl, rfl⟩ := afterWord?_eq_some_iff.mp found
    have word : (m ++ r).takeWhile isWordChar = m := by
      rw [List.takeWhile_append_of_pos (h.isWordChar hk)]
      cases r with
      | nil => simp
      | cons c r => simpa [startsOutsideWord] using outside
    rwa [word]
  · intro found
    refine ⟨_, found, ?_⟩
    rw [Option.any_eq_true]
    refine ⟨t.dropWhile isWordChar, ?_, ?_⟩
    · exact afterWord?_eq_some_iff.mpr ⟨_, (List.takeWhile_append_dropWhile).symm, rfl⟩
    · cases rest : t.dropWhile isWordChar with
      | nil => rfl
      | cons c r =>
          have := List.head?_dropWhile_not isWordChar t
          simpa [rest, startsOutsideWord] using this

/-- The word that a text starts with, and the words behind it. -/
theorem wordRuns_eq (h : (t.takeWhile isWordChar) ≠ []) :
    wordRuns t = t.takeWhile isWordChar :: wordRuns (t.dropWhile isWordChar) := by
  have word : ∀ c ∈ t.takeWhile isWordChar, isWordChar c = true :=
    fun c hc => List.mem_takeWhile_imp hc
  have outside : startsOutsideWord (t.dropWhile isWordChar) = true := by
    cases rest : t.dropWhile isWordChar with
    | nil => rfl
    | cons c r =>
        have := List.head?_dropWhile_not isWordChar t
        simpa [rest, startsOutsideWord] using this
  conv_lhs => rw [← List.takeWhile_append_dropWhile (p := isWordChar) (l := t)]
  rw [wordRuns_append _ outside, wordRuns_of_word word h]
  rfl

/-- A search for keywords looks at the words of the text. From within a word it goes on behind
that word. -/
theorem holdsWord_eq_true_iff (h : AreWords keywords) (outside : Bool) (t : Text) :
    holdsWord keywords outside t = true ↔
      ∃ w ∈ wordRuns (if outside then t else t.dropWhile isWordChar),
        w.map foldChar ∈ keywords := by
  induction t generalizing outside with
  | nil => cases outside <;> simp [holdsWord, wordRuns]
  | cons c cs ih =>
      rw [holdsWord, Bool.or_eq_true, Bool.and_eq_true, any_afterWord?_iff h, ih]
      cases word : isWordChar c with
      | false =>
          have notHere : [] ∉ keywords := fun empty => (h [] empty).1 rfl
          cases outside <;> simp [word, notHere, wordRuns_cons word]
      | true =>
          cases outside with
          | false => simp [word]
          | true =>
              have first : (c :: cs).takeWhile isWordChar ≠ [] := by simp [word]
              rw [if_pos rfl, wordRuns_eq first]
              simp [word]

end Search

/-! ### Keywords in any case -/

/-- A lowercase letter or an underscore. -/
def isKeyChar (c : Char) : Bool := c.isLower || c == '_'

theorem toNat_lt_of_isKeyChar (h : isKeyChar c = true) : 0 < c.toNat ∧ c.toNat < 128 := by
  rcases Bool.or_eq_true_iff.mp h with lower | underscore
  · simp only [Char.isLower, Bool.and_eq_true, decide_eq_true_eq, UInt32.le_iff_toNat_le,
      ge_iff_le] at lower
    have low : 97 ≤ c.toNat := lower.1
    have high : c.toNat ≤ 122 := lower.2
    omega
  · obtain rfl := eq_of_beq underscore
    decide

/-- Keywords of lowercase letters and underscores can be found between word boundaries. -/
theorem areWords_of_isKeyChar {keywords : List Text}
    (h : ∀ k ∈ keywords, k ≠ [] ∧ ∀ c ∈ k, isKeyChar c = true) : AreWords keywords := by
  intro k hk
  refine ⟨(h k hk).1, fun c hc => ?_⟩
  have key := (h k hk).2 _ hc
  unfold foldChar at key
  split at key
  · next same =>
    rw [eq_of_beq same]
    decide +kernel
  · split at key
    · next same =>
      rw [eq_of_beq same]
      decide +kernel
    · have letter (small : c.toNat < 128) (alphanum : (c.isAlphanum || c == '_') = true) :
          isWordChar c = true := by
        rw [isWordChar, if_pos small, alphanum]
      by_cases upper : c.isUpper = true
      · apply letter
        · simp only [Char.isUpper, decide_eq_true_eq, UInt32.le_iff_toNat_le] at upper
          have high : c.toNat ≤ 90 := upper.2
          omega
        · simp [Char.isAlphanum, Char.isAlpha, upper]
      · rw [Char.toLower_eq_of_not_isUpper upper] at key
        apply letter (toNat_lt_of_isKeyChar key).2
        rcases Bool.or_eq_true_iff.mp key with lower | underscore
        · simp [Char.isAlphanum, Char.isAlpha, lower]
        · rw [underscore, Bool.or_true]

/-- Of all characters outside ASCII, only the Kelvin sign has its lowercase form there. -/
theorem toNat_lowerRanges :
    ∀ row ∈ lowerRanges, row = (0x212a, 0x212a, 1, -8383) ∨ 128 ≤ row.1 + row.2.2.2 := by
  decide +kernel

/-- The characters that a letter of a keyword is the lowercase form of are folded onto it. -/
theorem foldChar_of_lowerChar (h : isKeyChar (lowerChar c) = true) : foldChar c = lowerChar c := by
  obtain ⟨positive, bound⟩ := toNat_lt_of_isKeyChar h
  by_cases small : c.toNat < 128
  · have notLongS : (c == '\u017f') = false := by
      rw [beq_eq_false_iff_ne]
      rintro rfl
      exact absurd small (by decide)
    have notKelvin : (c == '\u212a') = false := by
      rw [beq_eq_false_iff_ne]
      rintro rfl
      exact absurd small (by decide)
    simp [foldChar, lowerChar, small, notLongS, notKelvin]
  · rw [lowerChar, if_neg small] at positive bound
    split at bound
    · next first last step shift found =>
      rw [found] at positive
      simp only [Char.toNat_ofNat] at positive bound
      have within := List.find?_some found
      simp only [Bool.and_eq_true, decide_eq_true_eq] at within
      rcases toNat_lowerRanges _ (List.mem_of_find?_eq_some found) with kelvin | large
      · have same : c = '\u212a' := by
          apply Char.toNat_inj.mp
          change c.toNat = 0x212a
          simp only [Prod.mk.injEq] at kelvin
          omega
        rw [same]
        decide +kernel
      · simp only at large
        split at bound
        · omega
        · next invalid =>
          rw [if_neg invalid] at positive
          contradiction
    · exact absurd bound small

theorem map_foldChar_of_lowerAfter (before : Text)
    (key : ∀ c ∈ lowerAfter before t, isKeyChar c = true) :
    t.map foldChar = lowerAfter before t := by
  induction t generalizing before with
  | nil => rfl
  | cons c cs ih =>
      rw [lowerAfter] at key ⊢
      split at key
      · exact absurd (key '\u0307' (by simp)) (by decide)
      · split at key
        · exact absurd (key '\u03c2' List.mem_cons_self) (by decide)
        · next notDotted notSigma =>
          rw [if_neg notDotted, if_neg notSigma, List.map_cons]
          rw [foldChar_of_lowerChar (key _ List.mem_cons_self)]
          rw [ih _ fun d hd => key d (List.mem_cons_of_mem _ hd)]

/-- A text that is a keyword in lower case is folded onto the keyword. -/
theorem map_foldChar_of_lower {k : Text} (hk : ∀ c ∈ k, isKeyChar c = true) (h : t.lower = k) :
    t.map foldChar = k := by
  subst h
  exact map_foldChar_of_lowerAfter [] hk

end LogQuery.Text
