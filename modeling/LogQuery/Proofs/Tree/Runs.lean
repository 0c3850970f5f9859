import LogQuery.Proofs.Token.Mode
import LogQuery.Proofs.Tree.Balanced

/-!
# Runs and gaps

At the top level a balanced text is made of runs with white space between. A run is put together
from single characters, whole quotes and whole brackets, so it is one fragment wherever it stands
between white space, and the fragments of a balanced text are its runs.
-/

namespace LogQuery.FilterTree

open Fragment (addChar addGap)

variable {a r t u q g : Text} {c : Char} {w : Within} {fs gs : List Fragment}

/-- What a run is put together from. -/
inductive IsAtom : Text → Prop
  | char {c : Char} (plain : isPlainChar c = true) (seen : Text.isBlank c = false) : IsAtom [c]
  | quote {c : Char} {m : QuoteMark} {q : Text} (mark : QuoteMark.ofChar? c = some m)
      (quoted : (Within.inside m).Closes q) : IsAtom (c :: q)
  | bracket {a : Text} (inner : IsNested a) : IsAtom ('(' :: (a ++ [')']))

/-- Atoms with nothing between, at least one. -/
inductive IsRun : Text → Prop
  | atom {a : Text} (h : IsAtom a) : IsRun a
  | cons {a r : Text} (h : IsAtom a) (rest : IsRun r) : IsRun (a ++ r)

theorem isPlainChar_of_isBlank (h : Text.isBlank c = true) : isPlainChar c = true := by
  have opener := Text.ne_of_isBlank h (d := '(') (by decide)
  have closer := Text.ne_of_isBlank h (d := ')') (by decide)
  simp [isPlainChar, QuoteMark.ofChar?_of_isBlank h, opener, closer]

/-- A balanced text atom by atom. -/
theorem IsNested.atoms {P : Text → Prop} (h : IsNested t) (nil : P [])
    (blank : ∀ {c t}, Text.isBlank c = true → P t → P (c :: t))
    (atom : ∀ {a t}, IsAtom a → P t → P (a ++ t)) : P t := by
  induction h with
  | nil => exact nil
  | @char c t plain _ ih =>
      cases seen : Text.isBlank c with
      | true => exact blank seen ih
      | false => exact atom (.char plain seen) ih
  | quote mark quoted _ ih => exact atom (.quote mark quoted) ih
  | @bracket a t inner _ _ ih => simpa using atom (.bracket inner) ih

namespace IsAtom

theorem nested (h : IsAtom a) : IsNested a := by
  cases h with
  | char plain _ => exact .char plain .nil
  | @quote c m q mark quoted => simpa using IsNested.quote mark quoted .nil
  | bracket inner => exact .bracket inner .nil

theorem closes_last (h : w.Closes q) : ∃ m : QuoteMark, q.getLast? = some m.char := by
  induction h with
  | @last w c inside out =>
      cases w with
      | outside => contradiction
      | escaped m => simp [Within.step] at out
      | inside m =>
          simp only [Within.step] at out
          split_ifs at out with slash mark
          exact ⟨m, by simpa using mark⟩
  | cons _ _ rest ih =>
      obtain ⟨m, last⟩ := ih
      refine ⟨m, ?_⟩
      rw [List.getLast?_cons, last]
      rfl

/-- An atom starts and ends with a character that is seen. -/
theorem tight (h : IsAtom a) : a.Tight := by
  cases h with
  | char _ seen => exact .singleton seen
  | @quote c m q mark quoted =>
      obtain rfl := QuoteMark.ofChar?_eq_some_iff.mp mark
      obtain ⟨k, last⟩ := closes_last quoted
      refine ⟨⟨fun e he => ?_, fun e he => ?_⟩, by simp⟩
      · obtain rfl : m.char = e := by simpa using he
        exact m.isBlank_char
      · rw [List.getLast?_cons, last] at he
        obtain rfl : k.char = e := by simpa using he
        exact k.isBlank_char
  | bracket inner =>
      have opener : Text.Tight ['('] := .singleton (by decide)
      have closer : Text.Tight [')'] := .singleton (by decide)
      simpa using opener.around _ closer

end IsAtom

namespace IsRun

theorem nested (h : IsRun r) : IsNested r := by
  induction h with
  | atom h => exact h.nested
  | cons h _ ih => exact h.nested.append ih

theorem tight (h : IsRun r) : r.Tight := by
  induction h with
  | atom h => exact h.tight
  | cons h _ ih => exact h.tight.append ih

/-- A run that starts with a bracket goes on behind the partner of that bracket, if it does. -/
theorem exists_bracket (h : IsRun r) (opener : r.head? = some '(') :
    ∃ a u, r = '(' :: (a ++ ')' :: u) ∧ IsNested a ∧ (u = [] ∨ IsRun u) := by
  have first {a : Text} (h : IsAtom a) (opener : a.head? = some '(') :
      ∃ b, a = '(' :: (b ++ [')']) ∧ IsNested b := by
    cases h with
    | char plain _ =>
        obtain rfl := Option.some.inj opener
        exact absurd plain (by decide)
    | quote mark _ =>
        obtain rfl := Option.some.inj opener
        exact absurd mark (by simp [QuoteMark.ofChar?])
    | bracket inner => exact ⟨_, rfl, inner⟩
  cases h with
  | atom h =>
      obtain ⟨b, rfl, inner⟩ := first h opener
      exact ⟨b, [], rfl, inner, .inl rfl⟩
  | @cons a u h rest =>
      rw [List.head?_append_of_ne_nil _ h.tight.nonempty] at opener
      obtain ⟨b, rfl, inner⟩ := first h opener
      exact ⟨b, u, by simp, inner, .inr rest⟩

end IsRun

/-! ### Fragments -/

/-- Between marks and in brackets every character is put in front of what follows. -/
theorem ofText_closes (h : w.Closes q) (d : Nat) (u : Text) :
    Fragment.ofText filterRules { depth := d, within := w } (q ++ u) =
      q.foldr addChar (Fragment.ofText filterRules { depth := d } u) := by
  have step {w : Within} (inside : w ≠ .outside) (c : Char) :
      Place.step filterRules { depth := d, within := w } c =
        { depth := d, within := w.step false c } := by
    simp [Place.step, filterRules, inside]
  have notTop {w : Within} (inside : w ≠ .outside) :
      Place.isTop { depth := d, within := w } = false := by
    simp [Place.isTop, inside]
  induction h with
  | last inside out =>
      rw [List.singleton_append, Fragment.ofText, notTop inside, step inside, out]
      rfl
  | cons inside _ _ ih =>
      rw [List.cons_append, Fragment.ofText, notTop inside, step inside, ih]
      rfl

theorem ofText_mark {m : QuoteMark} (mark : QuoteMark.ofChar? c = some m)
    (quoted : (Within.inside m).Closes q) (d : Nat) (u : Text) :
    Fragment.ofText filterRules { depth := d } (c :: q ++ u) =
      (c :: q).foldr addChar (Fragment.ofText filterRules { depth := d } u) := by
  obtain rfl := QuoteMark.ofChar?_eq_some_iff.mp mark
  have notOpen : m.char ≠ '(' := by cases m <;> decide
  have notClose : m.char ≠ ')' := by cases m <;> decide
  have step : Place.step filterRules { depth := d } m.char =
      { depth := d, within := .inside m } := by
    simp [Place.step, filterRules, notOpen, notClose, Within.step]
  rw [List.cons_append, Fragment.ofText, m.isBlank_char, Bool.and_false, if_neg (by simp), step,
    ofText_closes quoted]
  rfl

theorem ofText_nested (h : IsNested a) (d : Nat) (u : Text) :
    Fragment.ofText filterRules { depth := d + 1 } (a ++ u) =
      a.foldr addChar (Fragment.ofText filterRules { depth := d + 1 } u) := by
  induction h generalizing d u with
  | nil => rfl
  | @char c t plain _ ih =>
      simp only [isPlainChar, Bool.and_eq_true, Option.isNone_iff_eq_none, bne_iff_ne] at plain
      obtain ⟨⟨notMark, notOpen⟩, notClose⟩ := plain
      have step : Place.step filterRules { depth := d + 1 } c = { depth := d + 1 } := by
        simp [Place.step, filterRules, notOpen, notClose, Within.step, notMark]
      rw [List.cons_append, Fragment.ofText, step, ih]
      rfl
  | @quote c m q t mark quoted _ ih =>
      have whole := ofText_mark mark quoted (d + 1) (t ++ u)
      rw [ih] at whole
      simpa using whole
  | @bracket a t _ _ inner rest =>
      have opened : Fragment.ofText filterRules { depth := d + 1 } ('(' :: (a ++ ')' :: (t ++ u))) =
          addChar '(' (Fragment.ofText filterRules { depth := d + 1 + 1 } (a ++ ')' :: (t ++ u))) :=
        rfl
      have closed : Fragment.ofText filterRules { depth := d + 1 + 1 } (')' :: (t ++ u)) =
          addChar ')' (Fragment.ofText filterRules { depth := d + 1 } (t ++ u)) := rfl
      rw [List.cons_append, List.append_assoc, List.cons_append, opened, inner, closed, rest]
      simp

theorem ofText_atom (h : IsAtom a) (u : Text) :
    Fragment.ofText filterRules {} (a ++ u) =
      a.foldr addChar (Fragment.ofText filterRules {} u) := by
  cases h with
  | @char c plain seen =>
      rw [List.singleton_append, Fragment.ofText, seen, Bool.and_false, if_neg (by simp),
        step_plain plain]
      rfl
  | quote mark quoted => exact ofText_mark mark quoted 0 u
  | @bracket a inner =>
      have opened : Fragment.ofText filterRules {} ('(' :: (a ++ ')' :: u)) =
          addChar '(' (Fragment.ofText filterRules { depth := 0 + 1 } (a ++ ')' :: u)) := rfl
      have closed : Fragment.ofText filterRules { depth := 0 + 1 } (')' :: u) =
          addChar ')' (Fragment.ofText filterRules {} u) := rfl
      rw [List.cons_append, List.append_assoc, List.singleton_append, opened, ofText_nested inner,
        closed]
      simp

theorem ofText_run (h : IsRun r) (u : Text) :
    Fragment.ofText filterRules {} (r ++ u) =
      r.foldr addChar (Fragment.ofText filterRules {} u) := by
  induction h with
  | atom h => exact ofText_atom h u
  | cons h _ ih => rw [List.append_assoc, ofText_atom h, ih, List.foldr_append]

/-- Characters in front of a gap, or of nothing, are a fragment of their own. -/
theorem foldr_addChar (hne : t ≠ []) (h : StartsApart fs) :
    t.foldr addChar fs = ⟨[], t⟩ :: fs := by
  induction t with
  | nil => contradiction
  | cons c t ih =>
      cases t with
      | nil =>
          cases fs with
          | nil => rfl
          | cons f fs =>
              have gap : f.gap ≠ [] := h f rfl
              simp [addChar, gap]
      | cons e t =>
          rw [List.foldr_cons, ih (by simp)]
          rfl

/-- A run before white space, or before nothing, is a fragment. -/
theorem fragments_run (h : IsRun r) (hu : StartsApart (Fragment.ofText filterRules {} u)) :
    Fragment.ofText filterRules {} (r ++ u) = ⟨[], r⟩ :: Fragment.ofText filterRules {} u := by
  rw [ofText_run h, foldr_addChar h.tight.nonempty hu]

theorem fragments_gap (hg : ∀ c ∈ g, Text.isBlank c = true) (u : Text) :
    Fragment.ofText filterRules {} (g ++ u) =
      g.foldr addGap (Fragment.ofText filterRules {} u) := by
  induction g with
  | nil => rfl
  | cons c g ih =>
      rw [List.cons_append, Fragment.ofText, if_pos (by simp [Place.isTop, hg c]),
        ih fun e he => hg e (by simp [he])]
      rfl

theorem foldr_addGap (g : Text) (f : Fragment) (fs : List Fragment) :
    g.foldr addGap (f :: fs) = ⟨g ++ f.gap, f.text⟩ :: fs := by
  induction g with
  | nil => rfl
  | cons c g ih =>
      rw [List.foldr_cons, ih]
      rfl

/-- The text of fragments, gaps included. -/
def flatten (fs : List Fragment) : Text := fs.flatMap fun f => f.gap ++ f.text

@[simp] theorem flatten_nil : flatten [] = [] := rfl

@[simp] theorem flatten_cons (f : Fragment) (fs : List Fragment) :
    flatten (f :: fs) = f.gap ++ f.text ++ flatten fs := rfl

@[simp] theorem flatten_append (fs gs : List Fragment) :
    flatten (fs ++ gs) = flatten fs ++ flatten gs := List.flatMap_append

/-- Runs with white space between, and perhaps in front. -/
inductive Spaced : List Fragment → Prop
  | nil : Spaced []
  | cons {f : Fragment} {fs : List Fragment} (run : IsRun f.text)
      (gap : ∀ c ∈ f.gap, Text.isBlank c = true) (apart : StartsApart fs) (rest : Spaced fs) :
      Spaced (f :: fs)

namespace Spaced

theorem singleton (h : IsRun r) : Spaced [⟨[], r⟩] :=
  .cons h (by simp) (by simp [StartsApart]) .nil

theorem append (hf : Spaced fs) (hg : Spaced gs) (apart : fs ≠ [] → StartsApart gs) :
    Spaced (fs ++ gs) := by
  induction hf with
  | nil => exact hg
  | @cons f fs run gap apart' _ ih =>
      cases fs with
      | nil => exact .cons run gap (apart (by simp)) hg
      | cons e fs => exact .cons run gap apart' (ih fun _ => apart (by simp))

theorem nested (h : Spaced fs) : IsNested (flatten fs) := by
  induction h with
  | nil => exact .nil
  | cons run gap _ _ ih =>
      have blank := IsNested.of_plain fun c hc => isPlainChar_of_isBlank (gap c hc)
      exact (blank.append run.nested).append ih

/-- The fragments of runs and gaps are these runs behind these gaps. -/
theorem ofText_append (h : Spaced fs) (hu : StartsApart (Fragment.ofText filterRules {} u)) :
    Fragment.ofText filterRules {} (flatten fs ++ u) =
      fs ++ Fragment.ofText filterRules {} u := by
  induction h with
  | nil => rfl
  | @cons f fs run gap apart _ ih =>
      have apart' : StartsApart (Fragment.ofText filterRules {} (flatten fs ++ u)) := by
        rw [ih]
        cases fs with
        | nil => exact hu
        | cons e fs => exact apart
      rw [flatten_cons, List.append_assoc, List.append_assoc, fragments_gap gap,
        fragments_run run apart', foldr_addGap, List.append_nil, ih]
      rfl

end Spaced

/-- The fragments of the text are runs, and nothing but white space is behind the last of them. -/
def IsSpaced (t : Text) : Prop :=
  ∃ fs after, Spaced fs ∧ (∀ c ∈ after, Text.isBlank c = true) ∧ t = flatten fs ++ after

/-- A balanced text is made of runs with white space between and around. -/
theorem IsNested.isSpaced (h : IsNested t) : IsSpaced t := by
  refine h.atoms (P := IsSpaced) ⟨[], [], .nil, by simp, rfl⟩ ?_ ?_
  · rintro c t blank ⟨fs, after, spaced, white, rfl⟩
    cases spaced with
    | nil => exact ⟨[], c :: after, .nil, by simpa [blank] using white, rfl⟩
    | @cons f fs run gap apart rest =>
        have gap' : ∀ e ∈ c :: f.gap, Text.isBlank e = true := by simpa [blank] using gap
        exact ⟨⟨c :: f.gap, f.text⟩ :: fs, after, .cons run gap' apart rest, white, rfl⟩
  · rintro a t atom ⟨fs, after, spaced, white, rfl⟩
    cases spaced with
    | nil => exact ⟨[⟨[], a⟩], after, .singleton (.atom atom), white, by simp⟩
    | @cons f fs run gap apart rest =>
        by_cases glued : f.gap = []
        · have longer : Spaced (⟨[], a ++ f.text⟩ :: fs) :=
            .cons (.cons atom run) (by simp) apart rest
          exact ⟨_, after, longer, white, by simp [glued]⟩
        · have before : Spaced (⟨[], a⟩ :: f :: fs) :=
            .cons (.atom atom) (by simp) (by simpa [StartsApart] using glued)
              (.cons run gap apart rest)
          exact ⟨_, after, before, white, by simp⟩

end LogQuery.FilterTree
