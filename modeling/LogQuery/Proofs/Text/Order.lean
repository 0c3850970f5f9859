import LogQuery.Text.Basic
import Mathlib

/-!
# The order of texts

Texts are ordered by the first character in which they differ. Digits are ordered as their
numbers are, so numbers that are written with the same number of digits, the missing ones filled
with zeros, are ordered as their texts are, whatever stands behind them.
-/

namespace LogQuery.Text

variable {s t u : Text} {a b c : Char}

/-! ### A total order -/

theorem le_cons_self (c : Char) (t u : Text) : le (c :: t) (c :: u) = le t u := by
  simp [le]

theorem le_cons_of_ne (h : a ≠ b) (t u : Text) : le (a :: t) (b :: u) = decide (a < b) := by
  simp [le, h]

theorem le_refl (t : Text) : le t t = true := by
  induction t with
  | nil => rfl
  | cons c t ih => rwa [le_cons_self]

theorem le_total (t u : Text) : le t u = true ∨ le u t = true := by
  induction t generalizing u with
  | nil => exact .inl rfl
  | cons a t ih =>
      cases u with
      | nil => exact .inr rfl
      | cons b u =>
          by_cases same : a = b
          · subst same
            simpa only [le_cons_self] using ih u
          · rw [le_cons_of_ne same, le_cons_of_ne (Ne.symm same)]
            simpa using lt_or_gt_of_ne same

theorem le_cons_iff : le (a :: t) (b :: u) = true ↔ a < b ∨ a = b ∧ le t u = true := by
  by_cases same : a = b
  · subst same
    simp [le_cons_self]
  · simp [le_cons_of_ne same, same]

theorem le_trans (h : le s t = true) (hu : le t u = true) : le s u = true := by
  induction s generalizing t u with
  | nil => rfl
  | cons a s ih =>
      rcases t with _ | ⟨b, t⟩
      · contradiction
      rcases u with _ | ⟨c, u⟩
      · contradiction
      rw [le_cons_iff] at h hu ⊢
      rcases h with below | ⟨rfl, h⟩
      · rcases hu with above | ⟨rfl, -⟩
        · exact .inl (lt_trans below above)
        · exact .inl below
      · rcases hu with above | ⟨rfl, hu⟩
        · exact .inl above
        · exact .inr ⟨rfl, ih h hu⟩

theorem le_antisymm (h : le t u = true) (hu : le u t = true) : t = u := by
  induction t generalizing u with
  | nil =>
      cases u with
      | nil => rfl
      | cons b u => contradiction
  | cons a t ih =>
      cases u with
      | nil => contradiction
      | cons b u =>
          rcases le_cons_iff.mp h with below | ⟨rfl, rest⟩
          · rcases le_cons_iff.mp hu with above | ⟨rfl, -⟩
            · exact absurd (lt_trans below above) (lt_irrefl a)
            · exact absurd below (lt_irrefl _)
          · rcases le_cons_iff.mp hu with above | ⟨-, rest'⟩
            · exact absurd above (lt_irrefl a)
            · rw [ih rest rest']

/-! ### Numbers of equal width -/

/-- The character of the last digit of a number. -/
def digit (n : Nat) : Char := Char.ofNat (48 + n % 10)

/-- What holds of the ten digits holds of all that are written. -/
theorem digit_of_forall {P : Char → Prop} (h : ∀ d : Fin 10, P (Char.ofNat (48 + d.val))) (n : Nat) :
    P (digit n) :=
  h ⟨n % 10, Nat.mod_lt n (by decide)⟩

theorem digit_lt_digit_iff {m n : Nat} (hm : m < 10) (hn : n < 10) :
    digit m < digit n ↔ m < n := by
  have listed : ∀ i j : Fin 10, digit i < digit j ↔ i < j := by
    decide
  exact listed ⟨m, hm⟩ ⟨n, hn⟩

theorem digit_inj {m n : Nat} (hm : m < 10) (hn : n < 10) : digit m = digit n ↔ m = n := by
  have listed : ∀ i j : Fin 10, digit i = digit j ↔ i = j := by
    decide
  simpa using listed ⟨m, hm⟩ ⟨n, hn⟩

/-- The last `width` digits of a number. -/
def padded : Nat → Nat → Text
  | 0, _ => []
  | width + 1, n => digit (n / 10 ^ width) :: padded width (n % 10 ^ width)

@[simp] theorem length_padded (width n : Nat) : (padded width n).length = width := by
  induction width generalizing n with
  | zero => rfl
  | succ width ih => rw [padded, List.length_cons, ih]

/-- Numbers are ordered by their digits in front, and then by the digits behind. -/
theorem lt_iff_div_mod {m n k : Nat} (hk : 0 < k) :
    m < n ↔ m / k < n / k ∨ m / k = n / k ∧ m % k < n % k := by
  have hm := Nat.div_add_mod m k
  have hn := Nat.div_add_mod n k
  have rm := Nat.mod_lt m hk
  have rn := Nat.mod_lt n hk
  rcases lt_trichotomy (m / k) (n / k) with less | same | more
  · have := Nat.mul_le_mul_left k less
    rw [Nat.mul_succ] at this
    omega
  · rw [same] at hm
    omega
  · have := Nat.mul_le_mul_left k more
    rw [Nat.mul_succ] at this
    omega

theorem eq_iff_div_mod {m n : Nat} (k : Nat) : m = n ↔ m / k = n / k ∧ m % k = n % k := by
  constructor
  · rintro rfl
    exact ⟨rfl, rfl⟩
  · rintro ⟨front, back⟩
    rw [← Nat.div_add_mod m k, ← Nat.div_add_mod n k, front, back]

theorem le_padded_append_iff {width m n : Nat} (hm : m < 10 ^ width) (hn : n < 10 ^ width) :
    le (padded width m ++ t) (padded width n ++ u) = true ↔ m < n ∨ m = n ∧ le t u = true := by
  induction width generalizing m n with
  | zero =>
      obtain ⟨rfl, rfl⟩ : m = 0 ∧ n = 0 := by omega
      simp [padded]
  | succ width ih =>
      have positive : 0 < 10 ^ width := Nat.pow_pos (by decide)
      have digits {k : Nat} (hk : k < 10 ^ (width + 1)) : k / 10 ^ width < 10 :=
        Nat.div_lt_of_lt_mul (by rwa [Nat.pow_succ] at hk)
      have below : m < n ↔ _ := lt_iff_div_mod positive
      have same : m = n ↔ _ := eq_iff_div_mod (10 ^ width)
      rw [padded, padded, List.cons_append, List.cons_append, le_cons_iff,
        digit_lt_digit_iff (digits hm) (digits hn), digit_inj (digits hm) (digits hn),
        ih (Nat.mod_lt m positive) (Nat.mod_lt n positive), below, same]
      simp only [and_or_left, and_assoc, or_assoc]

/-- The number can be told from its digits, and what stands behind them from the rest. -/
theorem padded_append_inj {width m n : Nat} (hm : m < 10 ^ width) (hn : n < 10 ^ width)
    (h : padded width m ++ t = padded width n ++ u) : m = n ∧ t = u := by
  have here : le (padded width m ++ t) (padded width n ++ u) = true := by
    rw [h]
    exact le_refl _
  have there : le (padded width n ++ u) (padded width m ++ t) = true := by
    rw [h]
    exact le_refl _
  rw [le_padded_append_iff hm hn] at here
  rw [le_padded_append_iff hn hm] at there
  obtain rfl : m = n := by omega
  exact ⟨rfl, List.append_cancel_left h⟩

end LogQuery.Text
