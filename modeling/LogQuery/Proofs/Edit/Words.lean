import LogQuery.Edit.Label
import LogQuery.Proofs.Stream.Selector
import LogQuery.Proofs.Tree.Runs

/-!
# Words of filters

The text before the first pipe is cut into words at its white space outside of quotes. A text
whose quotes are closed is nothing but its words with white space between and around, so its words
are what is left when it is written anew: with single spaces between, the words are cut again where
they were cut before.
-/

namespace LogQuery

open Fragment (addChar addGap)
open FilterTree (flatten StartsApart)

namespace Place

variable {r : PlaceRules} {cut : Char → Bool} {p q o : Place} {t u : Text} {c : Char}

/-! ### Crossing a text -/

theorem crosses_cons_iff : Crosses r cut p (c :: t) q ↔
    (p.isTop && cut c) = false ∧ Crosses r cut (p.step r c) t q := by
  constructor
  · rintro (_ | ⟨uncut, rest⟩)
    exact ⟨uncut, rest⟩
  · rintro ⟨uncut, rest⟩
    exact .cons uncut rest

/-- A text is crossed part by part. -/
theorem crosses_append_iff : Crosses r cut p (t ++ u) q ↔
    ∃ o, Crosses r cut p t o ∧ Crosses r cut o u q := by
  constructor
  · induction t generalizing p with
    | nil => exact fun h => ⟨p, .nil, h⟩
    | cons c t ih =>
        rw [List.cons_append, crosses_cons_iff]
        rintro ⟨uncut, rest⟩
        obtain ⟨o, first, second⟩ := ih rest
        exact ⟨o, .cons uncut first, second⟩
  · rintro ⟨o, first, second⟩
    exact first.append second

namespace Crosses

theorem unique (h : Crosses r cut p t q) (h' : Crosses r cut p t o) : o = q := by
  induction h with
  | nil =>
      cases h'
      rfl
  | cons _ _ ih =>
      obtain ⟨-, rest⟩ := crosses_cons_iff.mp h'
      exact ih rest

/-- Characters that lead nowhere else and are no separators. -/
theorem of_fixed (h : ∀ c ∈ t, p.step r c = p ∧ cut c = false) : Crosses r cut p t p := by
  induction t with
  | nil => exact .nil
  | cons c t ih =>
      obtain ⟨fixed, uncut⟩ := h c (by simp)
      refine .cons (by simp [uncut]) ?_
      rw [fixed]
      exact ih fun d hd => h d (by simp [hd])

/-- Double quotes are crossed, whatever they hold. -/
theorem inDoubleQuotes {depth : Nat} (opens : r.opens '"' = false) (closes : r.closes '"' = false)
    (uncut : cut '"' = false) (t : Text) :
    Crosses r cut { depth } (Quoting.inDoubleQuotes t) { depth } := by
  let quoted : Place := { depth, within := .inside .double }
  have opening : ({ depth } : Place).step r '"' = quoted := by
    simp [quoted, Place.step, opens, closes, Within.step, QuoteMark.ofChar?]
  have closing : quoted.step r '"' = { depth } := by
    simp [quoted, Place.step, Within.step, QuoteMark.char]
  have inside (t : Text) : Crosses r cut quoted (Escape.forDouble t) quoted := by
    induction t with
    | nil => exact .nil
    | cons c t ih =>
        cases h : Escape.isEscaped c with
        | true =>
            -- the backslash and the character behind it are crossed as a pair
            have pair : (quoted.step r '\\').isTop = false ∧
                (quoted.step r '\\').step r c = quoted := by
              simp [quoted, Place.step, Place.isTop, Within.step]
            rw [Escape.forDouble_cons_escaped h]
            refine .cons (by simp [quoted, isTop]) (.cons (by simp [pair.1]) ?_)
            rwa [pair.2]
        | false =>
            have plain : c ≠ '\\' ∧ c ≠ '"' := by simpa [Escape.isEscaped] using h
            have step : quoted.step r c = quoted := by
              simp [quoted, Place.step, Within.step, QuoteMark.char, plain]
            rw [Escape.forDouble_cons h]
            refine .cons (by simp [quoted, isTop]) ?_
            rwa [step]
  have shape : Quoting.inDoubleQuotes t = '"' :: (Escape.forDouble t ++ ['"']) := rfl
  rw [shape]
  refine .cons (by simp [uncut]) ?_
  rw [opening]
  refine (inside t).append (.cons (by simp [quoted, isTop]) ?_)
  rw [closing]
  exact .nil

theorem splitBefore_append (h : Crosses r cut p t q) (u : Text) :
    p.splitBefore r cut (t ++ u) =
      (t ++ (q.splitBefore r cut u).1, (q.splitBefore r cut u).2) := by
  induction h with
  | nil => rfl
  | cons uncut _ ih => rw [List.cons_append, splitBefore, uncut, ih]; rfl

end Crosses

/-- Cutting drops nothing. -/
theorem splitBefore_append_eq (r : PlaceRules) (cut : Char → Bool) (p : Place) (t : Text) :
    (p.splitBefore r cut t).1 ++ (p.splitBefore r cut t).2 = t := by
  induction t generalizing p with
  | nil => rfl
  | cons c t ih =>
      rw [splitBefore]
      split
      · rfl
      · exact congrArg (c :: ·) (ih _)

/-- The text before the first separator is crossed, and leads to the top level if it ends there. -/
theorem exists_crosses_splitBefore (r : PlaceRules) (cut : Char → Bool) (p : Place) (t : Text) :
    ∃ q, Crosses r cut p (p.splitBefore r cut t).1 q ∧
      ((p.splitBefore r cut t).2 ≠ [] → q.isTop = true) := by
  induction t generalizing p with
  | nil => exact ⟨p, .nil, fun h => absurd rfl h⟩
  | cons c t ih =>
      rw [splitBefore]
      split
      · next top => exact ⟨p, .nil, fun _ => (Bool.and_eq_true_iff.mp top).1⟩
      · next uncut =>
        obtain ⟨q, crosses, top⟩ := ih (p.step r c)
        exact ⟨q, .cons (by simpa using uncut) crosses, top⟩

end Place

open Place (Crosses)

namespace Within

variable {w : Within} {t u : Text} {c : Char}

/-- The place behind a text, for a scan that takes no escapes between backticks. -/
def past (w : Within) (t : Text) : Within := t.foldl (step false) w

@[simp] theorem past_nil (w : Within) : w.past [] = w := rfl

@[simp] theorem past_cons (w : Within) (c : Char) (t : Text) :
    w.past (c :: t) = (w.step false c).past t := rfl

@[simp] theorem past_append (w : Within) (t u : Text) : w.past (t ++ u) = (w.past t).past u :=
  List.foldl_append

theorem step_outside_unmarked (h : QuoteMark.ofChar? c = none) :
    outside.step false c = outside := by
  simp [step, h]

/-- Only a quote mark leads out of a quote. -/
theorem step_unmarked_eq_outside (h : QuoteMark.ofChar? c = none)
    (out : w.step false c = outside) : w = outside := by
  cases w with
  | outside => rfl
  | escaped m => simp [step] at out
  | inside m =>
      have mark : c ≠ m.char := by
        rintro rfl
        rw [QuoteMark.ofChar?_eq_some_iff.mpr rfl] at h
        contradiction
      simp only [step, beq_eq_false_iff_ne.mpr mark] at out
      split at out
      · contradiction
      · contradiction

theorem past_unmarked (h : ∀ c ∈ t, QuoteMark.ofChar? c = none) : outside.past t = outside := by
  induction t with
  | nil => rfl
  | cons c t ih =>
      rw [past_cons, step_outside_unmarked (h c (by simp))]
      exact ih fun d hd => h d (by simp [hd])

theorem past_unmarked_eq_outside (h : ∀ c ∈ t, QuoteMark.ofChar? c = none)
    (out : w.past t = outside) : w = outside := by
  induction t generalizing w with
  | nil => exact out
  | cons c t ih =>
      exact step_unmarked_eq_outside (h c (by simp)) (ih (fun d hd => h d (by simp [hd])) out)

end Within

/-- Every quote of the text is closed. -/
def QuotesClosed (t : Text) : Prop := Within.outside.past t = .outside

instance (t : Text) : Decidable (QuotesClosed t) := inferInstanceAs (Decidable (_ = _))

namespace QuotesClosed

variable {t u : Text}

theorem append (ht : QuotesClosed t) (hu : QuotesClosed u) : QuotesClosed (t ++ u) := by
  rw [QuotesClosed, Within.past_append, show Within.outside.past t = .outside from ht]
  exact hu

theorem of_blank (h : ∀ c ∈ t, Text.isBlank c = true) : QuotesClosed t :=
  Within.past_unmarked fun c hc => QuoteMark.ofChar?_of_isBlank (h c hc)

end QuotesClosed

namespace LabelEdit

variable {v : Within} {w x t u g : Text} {c : Char} {ws : List Text} {f : Fragment}
  {fs : List Fragment}

/-! ### Words -/

/-- A text that is one word: its white space is quoted, and its quotes are closed. -/
structure IsWord (w : Text) : Prop where
  nonempty : w ≠ []
  crosses : Crosses wordRules Text.isBlank {} w {}

theorem step_wordRules (v : Within) (c : Char) :
    Place.step wordRules { within := v } c = { within := v.step false c } := by
  cases v <;> simp [Place.step, wordRules]

theorem crosses_wordRules {p : Place} (h : Crosses wordRules Text.isBlank { within := v } t p) :
    p = { within := v.past t } := by
  induction t generalizing v with
  | nil =>
      cases h
      rfl
  | cons c t ih =>
      obtain ⟨-, rest⟩ := Place.crosses_cons_iff.mp h
      rw [step_wordRules] at rest
      exact ih rest

namespace IsWord

theorem append (hx : IsWord x) (hw : IsWord w) : IsWord (x ++ w) :=
  ⟨by simp [hx.nonempty], hx.crosses.append hw.crosses⟩

/-- A text without white space and quote marks. -/
theorem of_plain (hne : w ≠ []) (seen : ∀ c ∈ w, Text.isBlank c = false)
    (unmarked : ∀ c ∈ w, QuoteMark.ofChar? c = none) : IsWord w where
  nonempty := hne
  crosses := .of_fixed fun c hc => by
    rw [step_wordRules, Within.step, unmarked c hc]
    exact ⟨rfl, seen c hc⟩

theorem quotesClosed (h : IsWord w) : QuotesClosed w :=
  (Place.mk.inj (crosses_wordRules h.crosses)).2.1.symm

/-- A word starts and ends with a character that is seen. -/
theorem tight (h : IsWord w) : w.Tight := by
  refine ⟨⟨fun c hc => ?_, fun c hc => ?_⟩, h.nonempty⟩
  · obtain ⟨t, rfl⟩ : ∃ t, w = c :: t := List.head?_eq_some_iff.mp hc
    have uncut := (Place.crosses_cons_iff.mp h.crosses).1
    simpa [Place.isTop] using uncut
  · obtain ⟨t, rfl⟩ : ∃ t, w = t ++ [c] := List.getLast?_eq_some_iff.mp hc
    obtain ⟨p, first, last⟩ := Place.crosses_append_iff.mp h.crosses
    obtain rfl := crosses_wordRules first
    have uncut := (Place.crosses_cons_iff.mp last).1
    have out := (Place.mk.inj (crosses_wordRules last)).2.1
    rw [Within.past_cons, Within.past_nil] at out
    generalize Within.outside.past t = v at uncut out
    -- the last character stands outside of quotes, or it is a closing mark
    cases v with
    | outside => simpa [Place.isTop] using uncut
    | escaped m => simp [Within.step] at out
    | inside m =>
        simp only [Within.step] at out
        split_ifs at out with slash mark
        rw [eq_of_beq mark]
        exact m.isBlank_char

end IsWord

/-! ### Cutting a text into words -/

theorem words_nil : words [] = [] := rfl

/-- White space in front belongs to no word. -/
theorem words_cons_blank (h : Text.isBlank c = true) (t : Text) : words (c :: t) = words t := by
  rw [words, Fragment.ofText, if_pos (by simp [Place.isTop, h]), words]
  cases Fragment.ofText wordRules {} t <;> rfl

theorem words_blank_append (hg : ∀ c ∈ g, Text.isBlank c = true) (t : Text) :
    words (g ++ t) = words t := by
  induction g with
  | nil => rfl
  | cons c g ih =>
      rw [List.cons_append, words_cons_blank (hg c (by simp)), ih fun d hd => hg d (by simp [hd])]

theorem words_blank (hg : ∀ c ∈ g, Text.isBlank c = true) : words g = [] := by
  simpa [words_nil] using words_blank_append hg []

theorem ofText_crosses {p q : Place} (h : Crosses wordRules Text.isBlank p t q) (u : Text) :
    Fragment.ofText wordRules p (t ++ u) = t.foldr addChar (Fragment.ofText wordRules q u) := by
  induction h with
  | nil => rfl
  | cons uncut _ ih => rw [List.cons_append, Fragment.ofText, uncut, ih]; rfl

/-- The text is empty or starts with white space. -/
def Breaks (u : Text) : Prop := ∀ c ∈ u.head?, Text.isBlank c = true

theorem Breaks.startsApart (h : Breaks u) : StartsApart (Fragment.ofText wordRules {} u) := by
  cases u with
  | nil => simp [Fragment.ofText, StartsApart]
  | cons c u =>
      rw [Fragment.ofText, if_pos (by simp [Place.isTop, h c rfl])]
      cases Fragment.ofText wordRules {} u <;> simp [addGap, StartsApart]

/-- A word in front of white space, or of nothing. -/
theorem words_append (hw : IsWord w) (hu : Breaks u) : words (w ++ u) = w :: words u := by
  rw [words, ofText_crosses hw.crosses, FilterTree.foldr_addChar hw.nonempty hu.startsApart]
  rfl

theorem words_append_blank (hw : IsWord w) (hc : Text.isBlank c = true) (u : Text) :
    words (w ++ c :: u) = w :: words u := by
  rw [words_append hw fun d hd => by rwa [← Option.some.inj hd], words_cons_blank hc]

/-- Words written with single spaces between are cut there. -/
theorem words_join_append (h : ∀ w ∈ ws, IsWord w) (hu : Breaks u) :
    words (Text.join " " ws ++ u) = ws ++ words u := by
  fun_induction Text.join " " ws with
  | case1 => rfl
  | case2 w => exact words_append (h w (by simp)) hu
  | case3 w ws _ ih =>
      rw [List.append_assoc, List.append_assoc]
      refine (words_append_blank (h w (by simp)) rfl _).trans ?_
      rw [List.cons_append]
      exact congrArg (w :: ·) (ih fun x hx => h x (by simp [hx]))

theorem quotesClosed_join (h : ∀ w ∈ ws, IsWord w) : QuotesClosed (Text.join " " ws) :=
  Text.join_of (P := QuotesClosed) rfl .append (by decide) fun w hw => (h w hw).quotesClosed

/-! ### Texts whose quotes are closed -/

/-- Words with white space between, and perhaps in front. -/
inductive Spaced : List Fragment → Prop
  | nil : Spaced []
  | cons {f : Fragment} {fs : List Fragment} (word : IsWord f.text)
      (gap : ∀ c ∈ f.gap, Text.isBlank c = true) (apart : StartsApart fs) (rest : Spaced fs) :
      Spaced (f :: fs)

/-- By induction on the text, from any place in a quote: the rest of a word comes first. -/
theorem exists_spaced_of_past (h : v.past t = .outside) :
    ∃ x fs g, t = x ++ (flatten fs ++ g) ∧ Crosses wordRules Text.isBlank { within := v } x {} ∧
      Spaced fs ∧ StartsApart fs ∧ ∀ c ∈ g, Text.isBlank c = true := by
  induction t generalizing v with
  | nil =>
      obtain rfl : v = .outside := h
      exact ⟨[], [], [], rfl, .nil, .nil, by simp [StartsApart], by simp⟩
  | cons c t ih =>
      obtain ⟨x, fs, g, rfl, crosses, spaced, apart, blank⟩ := ih h
      by_cases gap : v = .outside ∧ Text.isBlank c = true
      · obtain ⟨rfl, space⟩ := gap
        rw [Within.step_outside_unmarked (QuoteMark.ofChar?_of_isBlank space)] at crosses
        have white : ∀ d ∈ [c], Text.isBlank d = true := by simpa using space
        by_cases first : x = []
        · subst first
          cases spaced with
          | nil => exact ⟨[], [], c :: g, rfl, .nil, .nil, by simp [StartsApart], by simpa [space]⟩
          | @cons f fs word gap apart' rest =>
              refine ⟨[], ⟨c :: f.gap, f.text⟩ :: fs, g, by simp, .nil, ?_, by simp [StartsApart],
                blank⟩
              exact .cons word (by simpa [space] using gap) apart' rest
        · refine ⟨[], ⟨[c], x⟩ :: fs, g, by simp, .nil, ?_, by simp [StartsApart], blank⟩
          exact .cons ⟨first, crosses⟩ white apart spaced
      · refine ⟨c :: x, fs, g, rfl, .cons ?_ ?_, spaced, apart, blank⟩
        · rw [Bool.and_eq_false_iff]
          by_cases outside : v = .outside
          · exact .inr (by simpa [outside] using gap)
          · exact .inl (by simpa [Place.isTop] using outside)
        · rwa [step_wordRules]

/-- A text with its quotes closed is made of words, and they are the words it is cut into. -/
theorem exists_spaced (h : QuotesClosed t) :
    ∃ fs g, t = flatten fs ++ g ∧ Spaced fs ∧ (∀ c ∈ g, Text.isBlank c = true) := by
  obtain ⟨x, fs, g, rfl, crosses, spaced, apart, blank⟩ := exists_spaced_of_past h
  by_cases first : x = []
  · exact ⟨fs, g, by simp [first], spaced, blank⟩
  · exact ⟨⟨[], x⟩ :: fs, g, by simp, .cons ⟨first, crosses⟩ (by simp) apart spaced, blank⟩

theorem Breaks.blank_append (hg : ∀ c ∈ g, Text.isBlank c = true) (hu : Breaks u) :
    Breaks (g ++ u) := by
  cases g with
  | nil => exact hu
  | cons c g =>
      intro d hd
      exact hg d (List.mem_of_mem_head? hd)

theorem Spaced.breaks (h : Spaced fs) (apart : StartsApart fs) (hu : Breaks u) :
    Breaks (flatten fs ++ u) := by
  cases h with
  | nil => exact hu
  | @cons f fs _ gap _ _ =>
      have first : f.gap ≠ [] := apart f rfl
      intro c hc
      rw [FilterTree.flatten_cons, List.append_assoc, List.append_assoc,
        List.head?_append_of_ne_nil _ first] at hc
      exact gap c (List.mem_of_mem_head? hc)

theorem Spaced.words_append (h : Spaced fs) (hu : Breaks u) :
    words (flatten fs ++ u) = fs.map Fragment.text ++ words u := by
  induction h with
  | nil => rfl
  | cons word gap apart rest ih =>
      rw [FilterTree.flatten_cons, List.append_assoc, List.append_assoc, words_blank_append gap,
        LabelEdit.words_append word (rest.breaks apart hu), ih, List.map_cons, List.cons_append]

theorem Spaced.words_eq (h : Spaced fs) (hg : ∀ c ∈ g, Text.isBlank c = true) :
    words (flatten fs ++ g) = fs.map Fragment.text := by
  rw [h.words_append fun c hc => hg c (List.mem_of_mem_head? hc), words_blank hg, List.append_nil]

theorem Spaced.isWord (h : Spaced fs) : ∀ f ∈ fs, IsWord f.text := by
  induction h with
  | nil => simp
  | cons word _ _ _ ih => simpa using ⟨word, ih⟩

/-- If the quotes of a text are closed, so are those of its words. -/
theorem isWord_of_mem_words (h : QuotesClosed t) : ∀ w ∈ words t, IsWord w := by
  obtain ⟨fs, g, rfl, spaced, blank⟩ := exists_spaced h
  rw [spaced.words_eq blank]
  simpa using spaced.isWord

theorem mem_of_mem_words (h : QuotesClosed t) (hw : w ∈ words t) (hc : c ∈ w) : c ∈ t := by
  obtain ⟨fs, g, rfl, spaced, blank⟩ := exists_spaced h
  rw [spaced.words_eq blank] at hw
  obtain ⟨f, hf, rfl⟩ := List.mem_map.mp hw
  exact List.mem_append_left _ (List.mem_flatMap.mpr ⟨f, hf, by simp [hc]⟩)

/-- The words of a text are not touched by what comes behind white space. -/
theorem words_closed_append (h : QuotesClosed t) (hu : Breaks u) :
    words (t ++ u) = words t ++ words u := by
  obtain ⟨fs, g, rfl, spaced, blank⟩ := exists_spaced h
  rw [List.append_assoc, spaced.words_append (hu.blank_append blank), words_blank_append blank,
    spaced.words_eq blank]

theorem allBlank_of_words_eq_nil (h : QuotesClosed t) (nothing : words t = []) :
    t.allBlank = true := by
  obtain ⟨fs, g, rfl, spaced, blank⟩ := exists_spaced h
  rw [spaced.words_eq blank, List.map_eq_nil_iff] at nothing
  rw [nothing, Text.allBlank, List.all_eq_true]
  exact blank

/-- White space at the ends of a text belongs to no word. -/
theorem quotesClosed_trim (h : QuotesClosed t) : QuotesClosed t.trim ∧ words t.trim = words t := by
  obtain ⟨before, after, split, blank, blank'⟩ := Text.exists_trim t
  have closed : QuotesClosed t.trim := by
    have unmarked {g : Text} (hg : ∀ c ∈ g, Text.isBlank c = true) :
        ∀ c ∈ g, QuoteMark.ofChar? c = none := fun c hc => QuoteMark.ofChar?_of_isBlank (hg c hc)
    rw [split, QuotesClosed, Within.past_append, Within.past_append,
      Within.past_unmarked (unmarked blank)] at h
    exact Within.past_unmarked_eq_outside (unmarked blank') h
  refine ⟨closed, ?_⟩
  conv_rhs => rw [split]
  rw [List.append_assoc, words_blank_append blank,
    words_closed_append closed fun c hc => blank' c (List.mem_of_mem_head? hc), words_blank blank',
    List.append_nil]

end LabelEdit

end LogQuery
