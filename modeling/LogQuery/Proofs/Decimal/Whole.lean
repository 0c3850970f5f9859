import LogQuery.Proofs.Text.Name
import LogQuery.Operation.Basic
import Mathlib.Data.List.TakeWhile

/-!
# Whole numbers

Limits, offsets and counts are whole numbers. They are written as their decimal digits, however
many zeros stand behind the point in the record, and the readers of decimals give every number
back that a mantissa holds. Where a clause takes an integer the number has to fit a signed 64-bit
word.
-/

namespace LogQuery.Decimal

/-- The decimal stands for the natural number, which fits a signed 64-bit word. -/
structure IsWhole (d : Decimal) (n : Nat) : Prop where
  same : d.sameValue (.ofInt n) = true
  fits : n < 2 ^ 63

/-- The decimal stands for the natural number, which fits a mantissa. -/
structure IsNatural (d : Decimal) (n : Nat) : Prop where
  same : d.sameValue (.ofInt n) = true
  fits : n ≤ maxMantissa

theorem le_maxMantissa {n : Nat} (h : n < 2 ^ 63) : n ≤ maxMantissa :=
  Nat.le_trans (Nat.le_of_lt h) (by decide)

theorem IsWhole.isNatural {d : Decimal} {n : Nat} (h : d.IsWhole n) : d.IsNatural n :=
  ⟨h.same, le_maxMantissa h.fits⟩

theorem le_wordMax {n : Nat} (h : n < 2 ^ 63) : (n : Int) ≤ wordMax := by
  have : n ≤ 2 ^ 63 - 1 := by omega
  exact Int.ofNat_le.mpr this

theorem isWhole_ofInt {n : Nat} (h : n < 2 ^ 63) : IsWhole (.ofInt n) n where
  same := by simp [sameValue]
  fits := h

namespace IsNatural

variable {d : Decimal} {n : Nat}

theorem mantissa_eq (h : d.IsNatural n) : d.mantissa = n * 10 ^ d.scale := by
  have same := h.same
  simp only [sameValue, ofInt, Bool.and_eq_true, beq_iff_eq] at same
  simpa [tenTo] using same.1

theorem mantissa_ne (h : d.IsNatural n) (hn : 0 < n) : d.mantissa ≠ 0 := by
  rw [h.mantissa_eq]
  exact Nat.ne_of_gt (Nat.mul_pos hn (Nat.pow_pos (by decide)))

theorem negative_eq (h : d.IsNatural n) (hn : 0 < n) : d.negative = false := by
  have same := h.same
  simp only [sameValue, ofInt, Bool.and_eq_true, Bool.or_eq_true, beq_iff_eq, isZero] at same
  have notBelow : ¬ (n : Int) < 0 := by omega
  simpa [h.mantissa_ne hn, notBelow] using same.2

theorem dropZeros_eq (n scale : Nat) : dropZeros scale (n * 10 ^ scale) = (n, 0) := by
  induction scale with
  | zero => simp [dropZeros]
  | succ k ih =>
      have split : n * 10 ^ (k + 1) = n * 10 ^ k * 10 := by
        rw [Nat.pow_succ, Nat.mul_assoc]
      rw [dropZeros, split, Nat.mul_mod_left, Nat.mul_div_cancel _ (by decide), ih]
      rfl

theorem normalize_eq (h : d.IsNatural n) : d.normalize = .ofInt n := by
  have sign : (d.negative && n != 0) = false := by
    rcases Nat.eq_zero_or_pos n with rfl | hn
    · simp
    · simp [h.negative_eq hn]
  rw [normalize, h.mantissa_eq, dropZeros_eq]
  simp [ofParts, ofInt, sign]

theorem isPositive_eq (h : d.IsNatural n) : d.isPositive = decide (0 < n) := by
  rcases Nat.eq_zero_or_pos n with rfl | hn
  · simp [isPositive, isZero, h.mantissa_eq]
  · simp [isPositive, isZero, h.negative_eq hn, h.mantissa_ne hn, hn]

theorem truncate_eq (h : d.IsNatural n) : d.truncate = n := by
  have quotient : d.mantissa / tenTo d.scale = n := by
    rw [h.mantissa_eq]
    exact Nat.mul_div_cancel _ (Nat.pow_pos (by decide))
  rcases Nat.eq_zero_or_pos n with rfl | hn
  · simp [truncate, quotient]
  · simp [truncate, quotient, h.negative_eq hn]

end IsNatural

theorem IsWhole.toWord?_eq {d : Decimal} {n : Nat} (h : d.IsWhole n) :
    d.toWord? = some (n : Int) := by
  have low : wordMin ≤ (n : Int) := Int.le_trans (b := 0) (by decide) (Int.natCast_nonneg n)
  simp [toWord?, h.isNatural.truncate_eq, low, le_wordMax h.fits]

/-! ### Digits -/

theorem isDigit_natText (n : Nat) : ∀ c ∈ natText n, c.isDigit = true :=
  fun _ hc => Nat.isDigit_of_mem_toDigits (by decide) (by decide) hc

theorem isName_natText (n : Nat) : Text.IsName (natText n) where
  nonempty := Nat.toDigits_ne_nil
  chars c hc := by simp [Text.isNameChar, Char.isAlphanum, isDigit_natText n c hc]

theorem text_ofInt (n : Nat) : (ofInt n).text = natText n := by
  have length : 0 < (natText n).length := List.length_pos_iff.mpr (isName_natText n).nonempty
  have pad : 1 - (natText n).length = 0 := by omega
  simp [text, ofInt, pad]

/-! ### Reading digits -/

theorem digit?_of_isDigit {c : Char} (h : c.isDigit = true) :
    digit? c = some (c.toNat - '0'.toNat) := by
  rw [digit?, if_pos h]

theorem ofDigits_natText (n : Nat) : ofDigits (natText n) = n := by
  have := Nat.ofDigitChars_ten_toDigits (n := n)
  simpa [Nat.ofDigitChars, ofDigits, natText, Nat.mul_comm] using this

/-- Digits after a mantissa make up a larger one, as long as that fits. -/
theorem readWhole_digits {t : Text} (ht : ∀ c ∈ t, c.isDigit = true) {started : Bool}
    (hstart : t = [] → started = true) {m : Nat}
    (fits : Nat.ofDigitChars 10 t m ≤ maxMantissa) :
    readWhole started m t = some (Nat.ofDigitChars 10 t m, 0) := by
  induction t generalizing m started with
  | nil => simp [readWhole, Nat.ofDigitChars, hstart rfl]
  | cons c cs ih =>
      have grows : m * 10 + (c.toNat - '0'.toNat) ≤ Nat.ofDigitChars 10 (c :: cs) m := by
        rw [Nat.ofDigitChars_cons, Nat.ofDigitChars_eq_ofDigitChars_zero, Nat.mul_comm m]
        calc 10 * m + (c.toNat - '0'.toNat)
            ≤ 10 ^ cs.length * (10 * m + (c.toNat - '0'.toNat)) :=
              Nat.le_mul_of_pos_left _ (Nat.pow_pos (by decide))
          _ ≤ _ := Nat.le_add_right _ _
      have room : ¬ m * 10 + (c.toNat - '0'.toNat) > maxMantissa := by omega
      rw [readWhole, digit?_of_isDigit (ht c (by simp))]
      simp only [room, if_false]
      rw [Nat.ofDigitChars_cons] at fits ⊢
      rw [Nat.mul_comm m]
      exact ih (fun d hd => ht d (by simp [hd])) (fun _ => rfl) fits

theorem readWhole_natText {n : Nat} (h : n ≤ maxMantissa) :
    readWhole false 0 (natText n) = some (n, 0) := by
  have value : Nat.ofDigitChars 10 (natText n) 0 = n := Nat.ofDigitChars_ten_toDigits
  have read : readWhole false 0 (natText n) = some (Nat.ofDigitChars 10 (natText n) 0, 0) :=
    readWhole_digits (isDigit_natText n) (fun empty => absurd empty (isName_natText n).nonempty)
      (by rwa [value])
  rwa [value] at read

theorem ofText?_natText {n : Nat} (h : n ≤ maxMantissa) : ofText? (natText n) = some (.ofInt n) := by
  have plain : ofText? (natText n) =
      (readWhole false 0 (natText n)).map fun p => ofParts false p.1 p.2 := by
    unfold ofText?
    split
    · next cs heq => exact absurd (heq ▸ rfl) ((isName_natText n).head?_ne (c := '-') (by decide))
    · next cs heq => exact absurd (heq ▸ rfl) ((isName_natText n).head?_ne (c := '+') (by decide))
    · rfl
  rw [plain, readWhole_natText h]
  simp [ofParts, ofInt]

/-- What a text of digits starts with is the whole text. -/
theorem takeWhile_isDigit_natText (n : Nat) :
    (natText n).takeWhile Char.isDigit = natText n :=
  List.takeWhile_eq_self_iff.mpr fun c hc => isDigit_natText n c hc

theorem leadingPart_natText (n : Nat) : leadingPart (natText n) = some (natText n) := by
  have whole := takeWhile_isDigit_natText n
  have minus := (isName_natText n).head?_ne (c := '-') (by decide)
  have plus := (isName_natText n).head?_ne (c := '+') (by decide)
  obtain ⟨c, cs, digits⟩ := List.exists_cons_of_ne_nil (isName_natText n).nonempty
  rw [digits] at whole minus plus ⊢
  simp only [List.head?_cons, ne_eq, Option.some.injEq] at minus plus
  simp [leadingPart, minus, plus, whole]

theorem ofLeading?_natText {n : Nat} (h : n ≤ maxMantissa) :
    ofLeading? (natText n) = some (.ofInt n) := by
  have kept : (natText n).filter (· != '_') = natText n := by
    rw [List.filter_eq_self]
    intro c hc
    have : c ≠ '_' := by
      rintro rfl
      exact absurd (isDigit_natText n _ hc) (by decide)
    simpa using this
  rw [ofLeading?, kept, leadingPart_natText, Option.bind_some, ofText?_natText h]

theorem leadingInt?_natText {n : Nat} (h : n < 2 ^ 63) :
    leadingInt? (natText n) = some (n : Int) := by
  have start : (natText n).trimStart = natText n := (isName_natText n).tight.trimStart_eq
  have whole := takeWhile_isDigit_natText n
  have value := ofDigits_natText n
  have minus := (isName_natText n).head?_ne (c := '-') (by decide)
  have plus := (isName_natText n).head?_ne (c := '+') (by decide)
  obtain ⟨c, cs, digits⟩ := List.exists_cons_of_ne_nil (isName_natText n).nonempty
  rw [digits] at start whole value minus plus ⊢
  simp only [List.head?_cons, ne_eq, Option.some.injEq] at minus plus
  have high : ¬ (n : Int) > wordMax := Int.not_lt.mpr (le_wordMax h)
  simp [leadingInt?, start, minus, plus, whole, value, high]

end LogQuery.Decimal

namespace LogQuery

open Decimal

variable {d : Decimal} {n : Nat}

theorem Param.toText_number (h : d.IsNatural n) : (Param.number d).toText = natText n := by
  rw [Param.toText, h.normalize_eq, text_ofInt]

theorem Param.toInt_number (h : d.IsWhole n) : (Param.number d).toInt = n := by
  rw [Param.toInt, Param.toDecimal, h.toWord?_eq]
  rfl

/-- The digits of a number that is left out at zero. -/
def wholeText? (n : Nat) : Option Text := if n = 0 then none else some (natText n)

theorem Operation.positive?_eq {op : Operation} {i : Nat}
    (hp : op.params[i]? = some (.number d)) (h : d.IsWhole n) :
    op.positive? i = wholeText? n := by
  rw [Operation.positive?, hp, wholeText?]
  rcases Nat.eq_zero_or_pos n with rfl | hn
  · simp [Param.toDecimal, h.isNatural.isPositive_eq]
  · simp [Param.toDecimal, h.isNatural.isPositive_eq, hn, Nat.ne_of_gt hn,
      Param.toText_number h.isNatural]

end LogQuery
