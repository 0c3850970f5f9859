import LogQuery.Proofs.Text.Tight
import Mathlib.Data.List.DropRight
import Mathlib.Data.List.TakeWhile

/-!
# What can be seen of a text

Trimming takes away white space at the ends only, so a text is its trimmed form with white
space around it. The visible text leaves out white space everywhere, and trimming never
changes it.
-/

namespace LogQuery.Text

variable {t : Text} {c : Char}

theorem ne_of_isBlank {d : Char} (hc : isBlank c = true) (hd : isBlank d = false) : c ≠ d := by
  rintro rfl
  rw [hd] at hc
  contradiction

/-! ### Trimming -/

theorem trimEnd_eq (t : Text) : t.trimEnd = t.rdropWhile isBlank := rfl

theorem exists_trimStart (t : Text) :
    ∃ before, t = before ++ t.trimStart ∧ ∀ c ∈ before, isBlank c = true := by
  refine ⟨t.takeWhile isBlank, ?_, ?_⟩
  · rw [trimStart, List.takeWhile_append_dropWhile]
  · intro c hc
    exact List.mem_takeWhile_imp hc

theorem exists_trimEnd (t : Text) :
    ∃ after, t = t.trimEnd ++ after ∧ ∀ c ∈ after, isBlank c = true := by
  refine ⟨t.rtakeWhile isBlank, ?_, ?_⟩
  · rw [trimEnd_eq, List.rdropWhile_append_rtakeWhile]
  · intro c hc
    exact List.mem_rtakeWhile_imp hc

/-- A text is its trimmed form with white space around it. -/
theorem exists_trim (t : Text) :
    ∃ before after, t = before ++ t.trim ++ after ∧ (∀ c ∈ before, isBlank c = true) ∧
      ∀ c ∈ after, isBlank c = true := by
  obtain ⟨before, start, blank⟩ := exists_trimStart t
  obtain ⟨after, ending, blank'⟩ := exists_trimEnd t.trimStart
  refine ⟨before, after, ?_, blank, blank'⟩
  rw [List.append_assoc, trim, ← ending, ← start]

theorem mem_of_mem_trim (h : c ∈ t.trim) : c ∈ t := by
  obtain ⟨before, after, split, -, -⟩ := exists_trim t
  rw [split]
  simp [h]

theorem head?_trimStart (h : c ∈ t.trimStart.head?) : isBlank c = false := by
  have first := List.head?_dropWhile_not isBlank t
  rwa [← trimStart, Option.mem_def.mp h] at first

theorem getLast?_trimEnd {c : Char} (h : c ∈ t.trimEnd.getLast?) : isBlank c = false := by
  rw [trimEnd_eq] at h
  obtain ⟨nonempty, rfl⟩ := List.mem_getLast?_eq_getLast h
  simpa using List.rdropWhile_last_not isBlank t nonempty

/-- Unless nothing is left, trimming the start leaves the end alone. -/
theorem getLast?_trimStart (h : t.trimStart ≠ []) : t.trimStart.getLast? = t.getLast? := by
  obtain ⟨before, start, -⟩ := exists_trimStart t
  conv_rhs => rw [start]
  exact (List.getLast?_append_of_ne_nil _ h).symm

theorem trimStart_append_cons (t : Text) {d : Char} (hd : isBlank d = false) (u : Text) :
    trimStart (t ++ d :: u) = trimStart t ++ d :: u := by
  rw [trimStart, trimStart, List.dropWhile_append]
  split
  · next empty =>
    rw [List.isEmpty_iff.mp empty, List.dropWhile_cons_of_neg (by simp [hd]), List.nil_append]
  · rfl

theorem trimEnd_append_cons (t : Text) {d : Char} (hd : isBlank d = false) (u : Text) :
    trimEnd (t ++ d :: u) = t ++ d :: trimEnd u := by
  rw [trimEnd_eq, trimEnd_eq]
  induction u using List.reverseRecOn with
  | nil => exact List.rdropWhile_concat_neg isBlank t d (by simp [hd])
  | append_singleton u c ih =>
      rw [← List.cons_append, ← List.append_assoc]
      by_cases blank : isBlank c = true
      · rw [List.rdropWhile_concat_pos isBlank _ c blank,
          List.rdropWhile_concat_pos isBlank _ c blank, ih]
      · rw [List.rdropWhile_concat_neg isBlank _ c blank,
          List.rdropWhile_concat_neg isBlank _ c blank]
        simp

/-- Around a character that is seen, the two ends of a text are trimmed apart. -/
theorem trim_append_cons (t : Text) {d : Char} (hd : isBlank d = false) (u : Text) :
    trim (t ++ d :: u) = trimStart t ++ d :: trimEnd u := by
  rw [trim, trimStart_append_cons t hd, trimEnd_append_cons _ hd]

/-- A visible character at the end ends the trimmed text as well. -/
theorem trim_concat (t : Text) (hc : isBlank c = false) : trim (t ++ [c]) = trimStart t ++ [c] :=
  trim_append_cons t hc []

theorem trim_concat_blank (t : Text) (hc : isBlank c = true) : trim (t ++ [c]) = trim t := by
  rw [trim, trimStart, List.dropWhile_append]
  split
  · next empty =>
    rw [List.dropWhile_cons_of_pos hc, trim, trimStart, List.isEmpty_iff.mp empty]
    rfl
  · exact List.rdropWhile_concat_pos isBlank _ c hc

theorem trimEnd_append_blank (t : Text) {g : Text} (hg : ∀ c ∈ g, isBlank c = true) :
    trimEnd (t ++ g) = trimEnd t := by
  induction g using List.reverseRecOn with
  | nil => rw [List.append_nil]
  | append_singleton g c ih =>
      rw [← List.append_assoc, trimEnd_eq, List.rdropWhile_concat_pos isBlank _ c (hg c (by simp)),
        ← trimEnd_eq]
      exact ih fun e he => hg e (by simp [he])

/-- Trimming the end alone leaves the white space at the start, unless nothing else is there. -/
theorem trimEnd_eq_append (t : Text) :
    t.trimEnd = [] ∧ t.trim = [] ∨ t.trimEnd = t.takeWhile isBlank ++ t.trim := by
  have parts : t = t.takeWhile isBlank ++ t.trimStart := (List.takeWhile_append_dropWhile).symm
  cases rest : t.trimStart with
  | nil =>
      have blank : ∀ c ∈ t, isBlank c = true := List.dropWhile_eq_nil_iff.mp rest
      exact .inl ⟨List.rdropWhile_eq_nil_iff.mpr blank, by rw [trim, rest]; rfl⟩
  | cons d u =>
      have visible : isBlank d = false := head?_trimStart (t := t) (by simp [rest])
      have ending : trimEnd (d :: u) = d :: trimEnd u := trimEnd_append_cons [] visible u
      right
      rw [trim, rest, ending]
      conv_lhs => rw [parts, rest]
      exact trimEnd_append_cons _ visible u

theorem trimmed_trim (t : Text) : t.trim.Trimmed where
  first c hc := by
    obtain ⟨after, ending, -⟩ := exists_trimEnd t.trimStart
    apply head?_trimStart (t := t)
    rw [ending]
    exact List.mem_head?_append_of_mem_head? hc
  last _ hc := getLast?_trimEnd hc

theorem trim_trim (t : Text) : t.trim.trim = t.trim := (trimmed_trim t).trim_eq

/-! ### Blank texts -/

theorem trim_of_allBlank (h : t.allBlank = true) : t.trim = [] := by
  have nothing : t.trimStart = [] := List.dropWhile_eq_nil_iff.mpr (List.all_eq_true.mp h)
  rw [trim, nothing]
  rfl

theorem Tight.allBlank_eq (h : t.Tight) : t.allBlank = false := by
  cases t with
  | nil => exact absurd rfl h.nonempty
  | cons c cs => simp [allBlank, h.first c rfl]

/-! ### Visible text -/

/-- The text without its white space. -/
def visible (t : Text) : Text := t.filter (!isBlank ·)

@[simp] theorem visible_nil : visible [] = [] := rfl

@[simp] theorem visible_append (t u : Text) : visible (t ++ u) = visible t ++ visible u :=
  List.filter_append t u

theorem visible_eq_nil (h : ∀ c ∈ t, isBlank c = true) : visible t = [] := by
  rw [visible, List.filter_eq_nil_iff]
  intro c hc
  simp [h c hc]

theorem visible_singleton (hc : isBlank c = false) : visible [c] = [c] := by
  simp [visible, hc]

@[simp] theorem visible_trim (t : Text) : visible t.trim = visible t := by
  obtain ⟨before, after, split, blank, blank'⟩ := exists_trim t
  conv_rhs => rw [split]
  rw [visible_append, visible_append, visible_eq_nil blank, visible_eq_nil blank', List.nil_append,
    List.append_nil]

/-- Trimming keeps every visible character. -/
theorem mem_trim (h : c ∈ t) (hc : isBlank c = false) : c ∈ t.trim := by
  have seen : c ∈ t.trim.visible := by
    rw [visible_trim]
    exact List.mem_filter.mpr ⟨h, by simp [hc]⟩
  exact List.mem_of_mem_filter seen

/-- Trimming leaves nothing of blank texts only. -/
theorem tight_trim (h : t.allBlank = false) : t.trim.Tight where
  toTrimmed := trimmed_trim t
  nonempty := by
    intro nothing
    obtain ⟨c, hc, visible⟩ := List.all_eq_false.mp h
    have kept := mem_trim hc (by simpa using visible)
    rw [nothing] at kept
    exact absurd kept List.not_mem_nil

end LogQuery.Text
