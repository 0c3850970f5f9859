import LogQuery.Proofs.Tree.Written

/-!
# Balanced filter texts

A text is balanced if its quotes are closed and its round brackets outside of quotes stand in
pairs. Counting brackets from left to right decides that; what proofs go by is how such a text is
built from plain characters, quotes, and balanced texts in brackets. The scan for groups passes
over it from one bracket to its partner.
-/

namespace LogQuery

/-- From this place in a quote, the text leads out of it with its last character. -/
inductive Within.Closes : Within → Text → Prop
  | last {w : Within} {c : Char} (inside : w ≠ .outside) (out : w.step false c = .outside) :
      Closes w [c]
  | cons {w : Within} {c : Char} {t : Text} (inside : w ≠ .outside)
      (still : w.step false c ≠ .outside) (rest : (w.step false c).Closes t) : Closes w (c :: t)

namespace FilterTree

variable {a t u q : Text} {c : Char} {d : Nat} {m : QuoteMark} {w : Within}

/-- Read inside so many brackets and from this place with respect to quotes, the text closes all
of them, and nothing else. -/
def closes : Nat → Within → Text → Bool
  | depth, within, [] => depth == 0 && within == .outside
  | depth, within, c :: cs =>
    if within == .outside && c == '(' then closes (depth + 1) within cs
    else if within == .outside && c == ')' then
      match depth with
      | 0 => false
      | depth + 1 => closes depth within cs
    else closes depth (within.step false c) cs

/-- Every quote is closed, and round brackets outside of quotes stand in pairs. -/
def IsBalanced (t : Text) : Prop := closes 0 .outside t = true

instance (t : Text) : Decidable (IsBalanced t) := inferInstanceAs (Decidable (_ = true))

/-! ### How balanced texts are built -/

inductive IsNested : Text → Prop
  | nil : IsNested []
  | char {c : Char} {t : Text} (h : isPlainChar c = true) (rest : IsNested t) : IsNested (c :: t)
  | quote {c : Char} {m : QuoteMark} {q t : Text} (h : QuoteMark.ofChar? c = some m)
      (quoted : (Within.inside m).Closes q) (rest : IsNested t) : IsNested (c :: (q ++ t))
  | bracket {a t : Text} (inner : IsNested a) (rest : IsNested t) :
      IsNested ('(' :: (a ++ ')' :: t))

/-- A balanced text behind others that each end in a closing bracket, one for each open one. -/
def ClosesNested : Nat → Text → Prop
  | 0, t => IsNested t
  | depth + 1, t => ∃ a u, t = a ++ ')' :: u ∧ IsNested a ∧ ClosesNested depth u

theorem ClosesNested.append (h : ClosesNested d u) (ht : ∀ v, IsNested v → IsNested (t ++ v)) :
    ClosesNested d (t ++ u) := by
  cases d with
  | zero => exact ht u h
  | succ d =>
      obtain ⟨a, v, rfl, inner, rest⟩ := h
      exact ⟨t ++ a, v, by simp, ht a inner, rest⟩

theorem closes_cons_inside (inside : w ≠ .outside) :
    closes d w (c :: t) = closes d (w.step false c) t := by
  simp [closes, inside]

theorem closes_cons_plain (h : isPlainChar c = true) :
    closes d .outside (c :: t) = closes d .outside t := by
  simp only [isPlainChar, Bool.and_eq_true, Option.isNone_iff_eq_none, bne_iff_ne] at h
  obtain ⟨⟨notMark, notOpen⟩, notClose⟩ := h
  simp [closes, notOpen, notClose, Within.step, notMark]

theorem closes_cons_mark (h : QuoteMark.ofChar? c = some m) :
    closes d .outside (c :: t) = closes d (.inside m) t := by
  obtain rfl := QuoteMark.ofChar?_eq_some_iff.mp h
  have notOpen : m.char ≠ '(' := by cases m <;> decide
  have notClose : m.char ≠ ')' := by cases m <;> decide
  simp [closes, notOpen, notClose, Within.step]

/-- By induction on the text, outside of quotes and inside of one at the same time. -/
theorem closesNested_of_closes (t : Text) : ∀ d,
    (closes d .outside t = true → ClosesNested d t) ∧
      ∀ w : Within, w ≠ .outside → closes d w t = true →
        ∃ q u, t = q ++ u ∧ w.Closes q ∧ ClosesNested d u := by
  induction t with
  | nil =>
      intro d
      refine ⟨fun h => ?_, fun w inside h => ?_⟩
      · obtain rfl : d = 0 := by simpa [closes] using h
        exact IsNested.nil
      · simp [closes, inside] at h
  | cons c t ih =>
      intro d
      refine ⟨fun h => ?_, fun w inside h => ?_⟩
      · by_cases opener : c = '('
        · subst opener
          obtain ⟨a, u, rfl, inner, rest⟩ := (ih (d + 1)).1 (by simpa [closes] using h)
          have around (v : Text) (hv : IsNested v) : IsNested ('(' :: (a ++ [')']) ++ v) := by
            simpa using IsNested.bracket inner hv
          simpa using rest.append around
        by_cases closer : c = ')'
        · subst closer
          cases d with
          | zero => simp [closes] at h
          | succ d => exact ⟨[], t, rfl, .nil, (ih d).1 (by simpa [closes] using h)⟩
        cases mark : QuoteMark.ofChar? c with
        | none =>
            have plain : isPlainChar c = true := by simp [isPlainChar, mark, opener, closer]
            rw [closes_cons_plain plain] at h
            exact ((ih d).1 h).append (t := [c]) fun _ => .char plain
        | some m =>
            rw [closes_cons_mark mark] at h
            obtain ⟨q, u, rfl, quoted, rest⟩ := (ih d).2 (.inside m) (by simp) h
            exact rest.append (t := c :: q) fun _ => .quote mark quoted
      · rw [closes_cons_inside inside] at h
        by_cases out : w.step false c = .outside
        · rw [out] at h
          exact ⟨[c], t, rfl, .last inside out, (ih d).1 h⟩
        · obtain ⟨q, u, rfl, quoted, rest⟩ := (ih d).2 _ out h
          exact ⟨c :: q, u, rfl, .cons inside out quoted, rest⟩

theorem closes_append (h : w.Closes q) (d : Nat) (u : Text) :
    closes d w (q ++ u) = closes d .outside u := by
  induction h with
  | last inside out => rw [List.singleton_append, closes_cons_inside inside, out]
  | cons inside _ _ ih => rw [List.cons_append, closes_cons_inside inside, ih]

theorem IsNested.closes_append (h : IsNested t) (d : Nat) (u : Text) :
    closes d .outside (t ++ u) = closes d .outside u := by
  induction h generalizing d u with
  | nil => rfl
  | char plain _ ih => rw [List.cons_append, closes_cons_plain plain, ih]
  | quote mark quoted _ ih =>
      rw [List.cons_append, List.append_assoc, closes_cons_mark mark,
        FilterTree.closes_append quoted, ih]
  | @bracket a t _ _ inner rest =>
      have opened : closes d .outside ('(' :: (a ++ ')' :: (t ++ u))) =
          closes (d + 1) .outside (a ++ ')' :: (t ++ u)) := rfl
      have closed : closes (d + 1) .outside (')' :: (t ++ u)) = closes d .outside (t ++ u) := rfl
      rw [List.cons_append, List.append_assoc, List.cons_append, opened, inner, closed, rest]

/-- Brackets that can be counted off stand in pairs. -/
theorem isNested_iff : IsNested t ↔ IsBalanced t := by
  constructor
  · intro h
    have whole := h.closes_append 0 []
    rw [List.append_nil] at whole
    exact whole.trans rfl
  · intro h
    exact (closesNested_of_closes t 0).1 h

theorem IsNested.append (ht : IsNested t) (hu : IsNested u) : IsNested (t ++ u) := by
  induction ht with
  | nil => exact hu
  | char plain _ ih => exact .char plain ih
  | quote mark quoted _ ih =>
      rw [List.cons_append, List.append_assoc]
      exact .quote mark quoted ih
  | bracket inner _ _ ih =>
      rw [List.cons_append, List.append_assoc, List.cons_append]
      exact .bracket inner ih

theorem IsNested.of_plain (h : ∀ c ∈ t, isPlainChar c = true) : IsNested t := by
  induction t with
  | nil => exact .nil
  | cons c t ih => exact .char (h c (by simp)) (ih fun e he => h e (by simp [he]))

/-! ### Passing over balanced texts -/

namespace GroupScan

variable {s : GroupScan}

theorem past_withWithin (s : GroupScan) (within : Within) (t : Text) :
    ({ s with within } : GroupScan).past t = { s.past t with within } :=
  past_comm (f := fun s => { s with within }) (fun _ _ => rfl) s t

theorem step_inside (inside : s.within ≠ .outside) (c : Char) :
    s.step c = ([], { s.hold c with within := s.within.step false c }) := by
  simp [step, inside]

/-- The rest of a quote is held to its end. -/
theorem run_closes (h : w.Closes q) (hs : s.within = w) (u : Text) :
    s.run (q ++ u) = ({ s.past q with within := .outside } : GroupScan).run u := by
  induction h generalizing s with
  | last inside out =>
      subst hs
      rw [List.singleton_append, run, step_inside inside, out]
      rfl
  | @cons w c q inside _ _ ih =>
      subst hs
      rw [List.cons_append, run, step_inside inside]
      refine (ih (s := { s.hold c with within := s.within.step false c }) rfl).trans ?_
      rw [past_withWithin]
      rfl

/-- A quote is held as it stands. -/
theorem run_quote (outside : s.within = .outside) (h : QuoteMark.ofChar? c = some m)
    (quoted : (Within.inside m).Closes q) (u : Text) :
    s.run (c :: q ++ u) = (s.past (c :: q)).run u := by
  obtain rfl := QuoteMark.ofChar?_eq_some_iff.mp h
  have notOpen : m.char ≠ '(' := by cases m <;> decide
  have notClose : m.char ≠ ')' := by cases m <;> decide
  have opened : s.step m.char = ([], { s.hold m.char with within := .inside m }) := by
    simp [step, notOpen, notClose, outside, Within.step]
  have kept : ({ s.past (m.char :: q) with within := .outside } : GroupScan) =
      s.past (m.char :: q) := by
    have within := past_within s (m.char :: q)
    rw [outside] at within
    rw [← within]
  rw [List.cons_append, run, opened,
    run_closes (s := { s.hold m.char with within := .inside m }) quoted rfl, past_withWithin]
  exact congrArg (fun s => run s u) kept

end GroupScan

/-- Inside a group, a balanced text is held as it stands. -/
theorem Passes.of_nested (h : IsNested t) : Passes t := by
  induction h with
  | nil => exact .of_plain (by simp)
  | @char c t plain _ ih => exact Passes.append (t := [c]) (.of_plain (by simpa using plain)) ih
  | @quote c m q t mark quoted _ ih =>
      have quote : Passes (c :: q) := fun s outside _ u =>
        GroupScan.run_quote outside mark quoted u
      exact quote.append ih
  | @bracket a t _ _ inner rest => simpa using (Passes.brackets inner).append rest

end FilterTree

end LogQuery
