import LogQuery.Proofs.Edit.Head
import LogQuery.Proofs.Tree.Balanced

/-!
# Scans that count brackets

Two scans count the brackets of a head, each by its own rules: one pairs round brackets, the other
looks for the first pipe. What they have in common is said once, so that an argument about brackets
serves both.
-/

namespace LogQuery

open FilterTree (closes IsBalanced)
open Place (Crosses)

namespace LabelEdit

variable {F : Nat → Text → Prop} {w x t u g : Text} {c : Char} {d e k : Nat} {v : Within}
  {ws : List Text} {fs : List Fragment}

/-! ### Words without escapes -/

/-- A word without escapes. -/
structure IsRawWord (w : Text) : Prop extends IsWord w where
  raw : '\\' ∉ w

namespace IsRawWord

theorem append (hx : IsRawWord x) (hw : IsRawWord w) : IsRawWord (x ++ w) :=
  ⟨hx.toIsWord.append hw.toIsWord, by simp [hx.raw, hw.raw]⟩

theorem replicate (hk : 0 < k) (bracket : c = '(' ∨ c = ')') : IsRawWord (List.replicate k c) := by
  have plain : Text.isBlank c = false ∧ QuoteMark.ofChar? c = none ∧ c ≠ '\\' := by
    rcases bracket with rfl | rfl <;> decide
  refine ⟨.of_plain (by simpa using hk.ne') ?_ ?_, ?_⟩
  · simpa [List.mem_replicate] using fun _ => plain.1
  · simpa [List.mem_replicate] using fun _ => plain.2.1
  · simpa [List.mem_replicate] using fun _ => plain.2.2.symm

end IsRawWord

theorem isRawWord_star : IsRawWord ['*'] := ⟨isPlainWord_star.isWord, by decide⟩

theorem isRawWord_of_mem_words (closed : QuotesClosed t) (raw : '\\' ∉ t) :
    ∀ w ∈ words t, IsRawWord w := fun w hw =>
  ⟨isWord_of_mem_words closed w hw, fun slash => raw (mem_of_mem_words closed hw slash)⟩

/-! ### Counting brackets -/

/-- A property of texts behind `d` open brackets that goes by their brackets outside of quotes. -/
structure CountsBrackets (F : Nat → Text → Prop) : Prop where
  blank {d : Nat} {c : Char} {t : Text} (hc : Text.isBlank c = true) : F d (c :: t) ↔ F d t
  opener {d : Nat} {t : Text} : F d ('(' :: t) ↔ F (d + 1) t
  closer {d : Nat} {t : Text} : F (d + 1) (')' :: t) ↔ F d t
  /-- A text without brackets can be left out. -/
  bare {d : Nat} {x t : Text} (closed : QuotesClosed x) (raw : '\\' ∉ x)
    (hx : ∀ c ∈ x, isBare c = true) (h : F d (x ++ t)) : F d t
  /-- What comes behind a text can be changed for all depths at once. -/
  behind {d : Nat} {x t u : Text} (closed : QuotesClosed x) (raw : '\\' ∉ x)
    (htu : ∀ d, F d t → F d u) (h : F d (x ++ t)) : F d (x ++ u)

theorem closes_append_of_bare (hx : ∀ c ∈ x, isBare c = true) :
    closes d v (x ++ t) = closes d (v.past x) t := by
  induction x generalizing v with
  | nil => rfl
  | cons c x ih =>
      have bare : c ≠ '(' ∧ c ≠ ')' := by
        have := hx c (by simp)
        constructor
        · rintro rfl
          contradiction
        · rintro rfl
          contradiction
      rw [List.cons_append, Within.past_cons, ← ih fun c' hc' => hx c' (by simp [hc'])]
      simp [closes, bare]

/-- Behind any text some brackets are open. -/
theorem exists_closes_append (x : Text) (d : Nat) (v : Within) :
    (∃ e, ∀ t, closes d v (x ++ t) = closes e (v.past x) t) ∨ ∀ t, closes d v (x ++ t) = false := by
  induction x generalizing d v with
  | nil => exact .inl ⟨d, fun _ => rfl⟩
  | cons c x ih =>
      by_cases outside : v = .outside
      · subst outside
        by_cases opener : c = '('
        · subst opener
          exact ih (d + 1) .outside
        · by_cases closer : c = ')'
          · subst closer
            cases d with
            | zero => exact .inr fun _ => rfl
            | succ d => exact ih d .outside
          · simpa [closes, opener, closer] using ih d (Within.outside.step false c)
      · simpa [closes, outside] using ih d (v.step false c)

theorem past_of_closes (h : closes d v t = true) : v.past t = .outside := by
  rw [← List.append_nil t] at h
  rcases exists_closes_append t d v with ⟨e, past⟩ | never
  · rw [past] at h
    exact (by simpa [closes] using h : e = 0 ∧ v.past t = .outside).2
  · rw [never] at h
    contradiction

theorem quotesClosed_of_isBalanced (h : IsBalanced t) : QuotesClosed t := past_of_closes h

theorem countsBrackets_closes : CountsBrackets fun d t => closes d .outside t = true where
  blank {d c t} hc := by
    have bare : c ≠ '(' ∧ c ≠ ')' :=
      ⟨Text.ne_of_isBlank hc (by decide), Text.ne_of_isBlank hc (by decide)⟩
    have unmarked := Within.step_outside_unmarked (QuoteMark.ofChar?_of_isBlank hc)
    simp [closes, bare, unmarked]
  opener := Iff.rfl
  closer := Iff.rfl
  bare closed _ hx h := by
    rwa [closes_append_of_bare hx, show Within.outside.past _ = .outside from closed] at h
  behind {d x t u} closed _ htu h := by
    rcases exists_closes_append x d .outside with ⟨e, past⟩ | never
    · rw [show Within.outside.past x = .outside from closed] at past
      rw [past] at h ⊢
      exact htu e h
    · rw [never] at h
      contradiction

theorem spans_cons_iff (step : Place.step stageRules { depth := d } c = { depth := k })
    (uncut : c ≠ '|') : Spans d (c :: t) e ↔ Spans k t e := by
  rw [Spans, Place.crosses_cons_iff, step]
  simp [uncut]

theorem crosses_of_bare {p : Place} (raw : '\\' ∉ x) (hx : ∀ c ∈ x, isBare c = true)
    (h : Crosses stageRules (· == '|') { depth := d, within := v } x p) :
    p = { depth := d, within := v.past x } := by
  induction x generalizing v with
  | nil =>
      cases h
      rfl
  | cons c x ih =>
      rw [List.mem_cons, not_or] at raw
      obtain ⟨-, rest⟩ := Place.crosses_cons_iff.mp h
      rw [step_stageRules_bare (hx c (by simp)) (Ne.symm raw.1)] at rest
      exact ih raw.2 (fun c' hc' => hx c' (by simp [hc'])) rest

theorem countsBrackets_spans (e : Nat) : CountsBrackets fun d t => Spans d t e where
  blank {d _ _} hc :=
    spans_cons_iff (step_stageRules_blank hc d) (Text.ne_of_isBlank hc (by decide))
  opener := spans_cons_iff rfl (by decide)
  closer := spans_cons_iff rfl (by decide)
  bare {d x t} closed raw hx h := by
    obtain ⟨p, first, second⟩ := Place.crosses_append_iff.mp h
    obtain rfl := crosses_of_bare raw hx first
    rwa [show Within.outside.past x = .outside from closed] at second
  behind {d x t u} closed raw htu h := by
    obtain ⟨p, first, second⟩ := Place.crosses_append_iff.mp h
    obtain ⟨d', rfl⟩ := exists_of_crosses raw first
    rw [show Within.outside.past x = .outside from closed] at first second
    exact first.append (htu d' second)

namespace CountsBrackets

variable (hF : CountsBrackets F)

include hF

theorem openers : F d (List.replicate k '(' ++ t) ↔ F (d + k) t := by
  induction k generalizing d with
  | zero => rfl
  | succ k ih =>
      rw [List.replicate_succ, List.cons_append, hF.opener, ih, Nat.add_right_comm, Nat.add_assoc]

theorem closers : F (d + k) (List.replicate k ')' ++ t) ↔ F d t := by
  induction k with
  | zero => rfl
  | succ k ih => rw [List.replicate_succ, List.cons_append, ← Nat.add_assoc, hF.closer, ih]

theorem blanks (hg : ∀ c ∈ g, Text.isBlank c = true) : F d (g ++ t) ↔ F d t := by
  induction g with
  | nil => rfl
  | cons c g ih =>
      rw [List.cons_append, hF.blank (hg c (by simp)), ih fun c' hc' => hg c' (by simp [hc'])]

theorem behind_iff (hw : IsRawWord w) (htu : ∀ d, F d t ↔ F d u) : F d (w ++ t) ↔ F d (w ++ u) :=
  ⟨hF.behind hw.quotesClosed hw.raw fun d => (htu d).mp,
    hF.behind hw.quotesClosed hw.raw fun d => (htu d).mpr⟩

theorem spaced_iff (h : Spaced fs) (raw : ∀ f ∈ fs, '\\' ∉ f.text)
    (hg : ∀ c ∈ g, Text.isBlank c = true) :
    F d (FilterTree.flatten fs ++ g) ↔ F d (fs.map Fragment.text).flatten := by
  induction h generalizing d with
  | nil => simpa using hF.blanks hg (t := [])
  | cons word gap _ _ ih =>
      rw [FilterTree.flatten_cons, List.append_assoc, List.append_assoc, hF.blanks gap,
        List.map_cons, List.flatten_cons]
      exact hF.behind_iff ⟨word, raw _ (by simp)⟩ fun d => ih fun f hf => raw f (by simp [hf])

/-- White space between words does not count. -/
theorem words_iff (closed : QuotesClosed t) (raw : ∀ w ∈ words t, '\\' ∉ w) :
    F d t ↔ F d (words t).flatten := by
  obtain ⟨fs, g, rfl, spaced, blank⟩ := exists_spaced closed
  rw [spaced.words_eq blank] at raw ⊢
  exact hF.spaced_iff spaced (by simpa using raw) blank

/-- Words that are written with single spaces between, and perhaps one behind. -/
theorem join_iff (hws : ∀ w ∈ ws, IsRawWord w) (hg : ∀ c ∈ g, Text.isBlank c = true) :
    F d (Text.join " " ws ++ g) ↔ F d ws.flatten := by
  have isWord : ∀ w ∈ ws, IsWord w := fun w hw => (hws w hw).toIsWord
  have cut : words (Text.join " " ws ++ g) = ws := by
    rw [words_join_append isWord fun c hc => hg c (List.mem_of_mem_head? hc), words_blank hg,
      List.append_nil]
  have closed := (quotesClosed_join isWord).append (.of_blank hg)
  rw [hF.words_iff closed (by rw [cut]; exact fun w hw => (hws w hw).raw), cut]

theorem behind_flatten (hb : ∀ w ∈ ws, IsRawWord w) (htu : ∀ d, F d t → F d u)
    (h : F d (ws.flatten ++ t)) : F d (ws.flatten ++ u) := by
  induction ws generalizing d with
  | nil => exact htu d h
  | cons w ws ih =>
      have first := hb w (by simp)
      rw [List.flatten_cons, List.append_assoc] at h ⊢
      exact hF.behind first.quotesClosed first.raw
        (fun d => ih fun x hx => hb x (by simp [hx])) h

/-- A connective can be left out. -/
theorem connective (hc : isConnective w = true) (h : F d (w ++ t)) : F d t := by
  have plain := IsPlainWord.of_isName (isName_of_isConnective hc)
  refine hF.bare plain.isWord.quotesClosed (plain.not_mem (by decide)) (fun c hc => ?_) h
  exact isBare_of_isOrdinary (plain.ordinary c hc)

end CountsBrackets

theorem not_closes_openers (hk : 0 < k) (t : Text) :
    closes d .outside (t ++ List.replicate k '(') = false := by
  rw [Bool.eq_false_iff]
  intro h
  rcases exists_closes_append t d .outside with ⟨e, past⟩ | never
  · rw [past] at h
    have outside : Within.outside.past t = .outside :=
      Within.past_unmarked_eq_outside (by simp [List.mem_replicate, QuoteMark.ofChar?])
        (past_of_closes h)
    rw [outside, ← List.append_nil (List.replicate k _), countsBrackets_closes.openers] at h
    have : e + k = 0 := by simpa [closes] using h
    omega
  · rw [never] at h
    contradiction

end LabelEdit

end LogQuery
