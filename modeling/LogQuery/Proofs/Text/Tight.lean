import LogQuery.Text.Basic
import Mathlib.Data.List.Basic

/-!
# Texts without white space at their ends

Query text is trimmed before it is read and after it is written. A tight text is one that
neither step changes, and putting tight texts together, whatever stands between them, gives
a tight text again. So the pieces of a written query never need to be trimmed apart.
-/

namespace LogQuery.Text

/-- White space neither at the start nor at the end. The empty text is trimmed. -/
structure Trimmed (t : Text) : Prop where
  first : ∀ c ∈ t.head?, isBlank c = false
  last : ∀ c ∈ t.getLast?, isBlank c = false

instance (t : Text) : Decidable t.Trimmed :=
  decidable_of_iff (t.head?.all (!isBlank ·) = true ∧ t.getLast?.all (!isBlank ·) = true) (by
    simp only [Option.all_eq_true, Bool.not_eq_true']
    exact ⟨fun h => ⟨h.1, h.2⟩, fun h => ⟨h.first, h.last⟩⟩)

/-- A trimmed text that is not empty. -/
structure Tight (t : Text) : Prop extends Trimmed t where
  nonempty : t ≠ []

theorem dropEndWhile_eq_self {p : Char → Bool} {t : Text} (h : ∀ c ∈ t.getLast?, p c = false) :
    dropEndWhile p t = t := by
  rw [← List.head?_reverse] at h
  unfold dropEndWhile
  cases hr : t.reverse with
  | nil => simpa using hr.symm
  | cons c cs =>
      rw [hr] at h
      rw [List.dropWhile_cons_of_neg (by simpa using h c rfl), ← hr, List.reverse_reverse]

theorem Trimmed.trimStart_eq {t : Text} (h : t.Trimmed) : t.trimStart = t := by
  cases t with
  | nil => rfl
  | cons c cs => exact List.dropWhile_cons_of_neg (by simpa using h.first c rfl)

theorem Trimmed.trim_eq {t : Text} (h : t.Trimmed) : t.trim = t := by
  rw [trim, h.trimStart_eq]
  exact dropEndWhile_eq_self h.last

theorem Trimmed.of_all {t : Text} (h : ∀ c ∈ t, isBlank c = false) : t.Trimmed where
  first c hc := h c (List.mem_of_mem_head? hc)
  last c hc := h c (List.mem_of_mem_getLast? hc)

namespace Tight

variable {t u : Text}

theorem of_all (hne : t ≠ []) (h : ∀ c ∈ t, isBlank c = false) : t.Tight :=
  { Trimmed.of_all h with nonempty := hne }

theorem singleton {c : Char} (h : isBlank c = false) : Tight [c] :=
  .of_all (by simp) (by simpa using h)

/-- Whatever stands between two tight texts, the whole is tight. -/
theorem around (ht : t.Tight) (v : Text) (hu : u.Tight) : (t ++ v ++ u).Tight where
  first c hc := by
    apply ht.first c
    rw [List.append_assoc, List.head?_append_of_ne_nil _ ht.nonempty] at hc
    exact hc
  last c hc := by
    apply hu.last c
    rw [List.getLast?_append_of_ne_nil _ hu.nonempty] at hc
    exact hc
  nonempty := by simp [ht.nonempty]

theorem append (ht : t.Tight) (hu : u.Tight) : (t ++ u).Tight := by
  simpa using ht.around [] hu

/-- A start without white space may come before a tight text. -/
theorem append_left (ht : ∀ c ∈ t.head?, isBlank c = false) (hu : u.Tight) :
    (t ++ u).Tight where
  first c hc := by
    cases t with
    | nil => exact hu.first c hc
    | cons d ds => exact ht c hc
  last c hc := by
    apply hu.last c
    rw [List.getLast?_append_of_ne_nil _ hu.nonempty] at hc
    exact hc
  nonempty := by simp [hu.nonempty]

/-- A tight start keeps its end where spaces at the end of the text are dropped. -/
theorem prefix_dropEndWhile (ht : t.Tight) {p : Char → Bool}
    (hp : ∀ c, p c = true → isBlank c = true) (h : t <+: u) : t <+: dropEndWhile p u := by
  obtain ⟨r, rfl⟩ := h
  have kept : (t.reverse.dropWhile p).reverse = t := by
    apply dropEndWhile_eq_self
    intro c hc
    rw [Bool.eq_false_iff]
    intro dropped
    exact absurd (hp c dropped) (by simp [ht.last c hc])
  rw [dropEndWhile, List.reverse_append, List.dropWhile_append]
  split
  · simp [kept]
  · simp

theorem prefix_trim (ht : t.Tight) (h : t <+: u) : t <+: u.trim := by
  have start : u.trimStart = u := by
    obtain ⟨r, rfl⟩ := h
    obtain ⟨c, cs, rfl⟩ := List.exists_cons_of_ne_nil ht.nonempty
    exact List.dropWhile_cons_of_neg (by simpa using ht.first c rfl)
  rw [trim, start]
  exact ht.prefix_dropEndWhile (fun _ blank => blank) h

end Tight

/-! ### Cutting at the first separator -/

section SplitFirst

variable {p : Char → Bool} {t : Text}

theorem splitFirst?_eq_none (h : ∀ c ∈ t, p c = false) : splitFirst? p t = none := by
  induction t with
  | nil => rfl
  | cons c cs ih =>
      rw [splitFirst?, h c (by simp), ih fun d hd => h d (by simp [hd])]
      rfl

theorem splitFirst?_append (h : ∀ c ∈ t, p c = false) {d : Char} (hd : p d = true) (u : Text) :
    splitFirst? p (t ++ d :: u) = some (t, u) := by
  induction t with
  | nil => simp [splitFirst?, hd]
  | cons c cs ih =>
      rw [List.cons_append, splitFirst?, h c (by simp), ih fun e he => h e (by simp [he])]
      rfl

theorem exists_of_splitFirst? {before rest : Text} (h : splitFirst? p t = some (before, rest)) :
    ∃ c, p c = true ∧ t = before ++ c :: rest := by
  induction t generalizing before with
  | nil => contradiction
  | cons c cs ih =>
      rw [splitFirst?] at h
      split at h
      · next cut =>
        cases h
        exact ⟨c, cut, rfl⟩
      · obtain ⟨⟨more, after⟩, found, same⟩ := Option.map_eq_some_iff.mp h
        cases same
        obtain ⟨d, cut, rfl⟩ := ih found
        exact ⟨d, cut, rfl⟩

end SplitFirst

/-- What holds of the parts and of the separator holds of the joined text, if it holds of texts
put together. -/
theorem join_of {P : Text → Prop} (nil : P []) (append : ∀ {t u : Text}, P t → P u → P (t ++ u))
    {separator : Text} (between : P separator) {parts : List Text} (h : ∀ t ∈ parts, P t) :
    P (join separator parts) := by
  fun_induction join separator parts with
  | case1 => exact nil
  | case2 part => exact h part (by simp)
  | case3 part parts _ ih =>
      exact append (append (h part (by simp)) between) (ih fun t ht => h t (by simp [ht]))

/-- The separator may be blank: it stands between tight texts. -/
theorem Tight.join {parts : List Text} (h : ∀ t ∈ parts, t.Tight) (several : parts ≠ [])
    (separator : Text) : (Text.join separator parts).Tight := by
  fun_induction Text.join separator parts with
  | case1 => contradiction
  | case2 part => exact h part (by simp)
  | case3 part parts more ih =>
      exact (h part (by simp)).around separator (ih (fun t ht => h t (by simp [ht])) more)

end LogQuery.Text
