import LogQuery.Proofs.Text.Name
import LogQuery.Proofs.Text.Visible
import LogQuery.Tree.Writer
import LogQuery.Tree.Reader

/-!
# Words between groups

A filter without white space, quote marks and round brackets is one fragment wherever it
stands, and so is an operator. Behind such a filter an operator never belongs to it, so a text in
which they take turns comes down to its filters and operators, one item for each.
-/

namespace LogQuery

namespace FilterTree

/-- Neither a quote mark nor a round bracket. -/
def isPlainChar (c : Char) : Bool := (QuoteMark.ofChar? c).isNone && c != '(' && c != ')'

/-- A text that is one fragment. -/
structure IsWord (t : Text) : Prop where
  nonempty : t ≠ []
  plain : ∀ c ∈ t, isPlainChar c = true
  seen : ∀ c ∈ t, Text.isBlank c = false

instance (t : Text) : Decidable (IsWord t) :=
  decidable_of_iff (t ≠ [] ∧ t.all isPlainChar = true ∧ t.any Text.isBlank = false)
    ⟨fun h => ⟨h.1, List.all_eq_true.mp h.2.1, by simpa using h.2.2⟩,
      fun h => ⟨h.nonempty, List.all_eq_true.mpr h.plain, by simpa using h.seen⟩⟩

/-- A word that is a filter of its own: no operator, and nothing is to follow a colon. -/
structure IsFilterWord (t : Text) : Prop extends IsWord t where
  filter : isOperator t = false
  complete : t.endsWith ":" = false

instance (t : Text) : Decidable (IsFilterWord t) :=
  decidable_of_iff (IsWord t ∧ isOperator t = false ∧ t.endsWith ":" = false)
    ⟨fun h => { h.1 with filter := h.2.1, complete := h.2.2 },
      fun h => ⟨h.toIsWord, h.filter, h.complete⟩⟩

variable {c : Char} {t w x o : Text}

theorem IsWord.tight (h : IsWord t) : t.Tight := .of_all h.nonempty h.seen

/-! ### Operators -/

theorem isOperator_iff : isOperator t = true ↔
    t.map Char.toLower = ['a', 'n', 'd'] ∨ t.map Char.toLower = ['o', 'r'] := by
  rw [isOperator, Bool.or_eq_true, Text.sameFold, Text.sameFold, beq_iff_eq, beq_iff_eq]
  rfl

/-- A word that is a keyword up to case is made of letters. -/
theorem isName_of_sameFold {k : Text} (h : w.sameFold k = true) (hne : k ≠ [])
    (letters : (k.map Char.toLower).all Char.isLower = true) : w.IsName := by
  have same : w.map Char.toLower = k.map Char.toLower := eq_of_beq h
  refine ⟨?_, fun c hc => ?_⟩
  · rintro rfl
    exact hne (List.map_eq_nil_iff.mp same.symm)
  · have lowered : c.toLower ∈ k.map Char.toLower := same ▸ List.mem_map_of_mem hc
    have letter := List.all_eq_true.mp letters _ lowered
    rw [Char.isLower_toLower_eq_isAlpha] at letter
    simp [Text.isNameChar, Char.isAlphanum, letter]

/-- An operator is made of letters. -/
theorem isName_of_isOperator (h : isOperator o = true) : o.IsName := by
  rw [isOperator, Bool.or_eq_true] at h
  rcases h with conjunction | disjunction
  · exact isName_of_sameFold conjunction (by simp) (by rfl)
  · exact isName_of_sameFold disjunction (by simp) (by rfl)

theorem isPlainChar_of_isNameChar (h : Text.isNameChar c = true) : isPlainChar c = true := by
  have notMark : QuoteMark.ofChar? c = none := by
    simp [QuoteMark.ofChar?, Text.ne_of_isNameChar h (d := '`') rfl,
      Text.ne_of_isNameChar h (d := '"') rfl, Text.ne_of_isNameChar h (d := '\'') rfl]
  simp [isPlainChar, notMark, Text.ne_of_isNameChar h (d := '(') rfl,
    Text.ne_of_isNameChar h (d := ')') rfl]

theorem isWord_of_isOperator (h : isOperator o = true) : IsWord o :=
  have name := isName_of_isOperator h
  ⟨name.nonempty, fun c hc => isPlainChar_of_isNameChar (name.chars c hc),
    fun c hc => Text.isBlank_of_isNameChar (name.chars c hc)⟩

/-- A text that ends in an operator does not end in a membership test. -/
theorem endsInMembership_operator (h : isOperator o = true) (t : Text) :
    endsInMembership (t ++ ' ' :: (o ++ [' '])) = false := by
  have word := (isWord_of_isOperator h).tight
  have trimmed : (t ++ ' ' :: (o ++ [' '])).trimEnd = t ++ ' ' :: o := by
    have shape : t ++ ' ' :: (o ++ [' ']) = (t ++ ' ' :: o) ++ [' '] := by simp
    have kept : (t ++ ' ' :: o).trimEnd = t ++ ' ' :: o := by
      refine Text.dropEndWhile_eq_self fun c hc => word.last c ?_
      rwa [List.getLast?_append_of_ne_nil _ (List.cons_ne_nil _ _),
        List.getLast?_cons_of_ne_nil word.nonempty] at hc
    rw [shape, Text.trimEnd_eq, List.rdropWhile_concat_pos _ _ _ rfl]
    exact kept
  -- a membership test ends in the letter `n`, an operator in another one
  have ending : ((t ++ ' ' :: o).map Char.toLower).getLast? ≠ some 'n' := by
    have last : ((t ++ ' ' :: o).map Char.toLower).getLast? = (o.map Char.toLower).getLast? := by
      rw [List.getLast?_map, List.getLast?_map,
        List.getLast?_append_of_ne_nil _ (List.cons_ne_nil _ _),
        List.getLast?_cons_of_ne_nil word.nonempty]
    rw [last]
    rcases isOperator_iff.mp h with eq | eq
    · rw [eq]
      decide
    · rw [eq]
      decide
  have noTest {e : Text} (he : e.getLast? = some 'n') :
      Text.endsWith ((t ++ ' ' :: o).map Char.toLower) e = false := by
    rw [Bool.eq_false_iff]
    intro ends
    obtain ⟨u, split⟩ := List.isSuffixOf_iff_suffix.mp ends
    apply ending
    rw [← split, List.getLast?_append, he]
    rfl
  rw [endsInMembership, trimmed, noTest (e := ":in") rfl, noTest (e := ":not_in") rfl]
  rfl

/-! ### Fragments -/

theorem step_plain (h : isPlainChar c = true) : ({} : Place).step filterRules c = {} := by
  simp only [isPlainChar, Bool.and_eq_true, Option.isNone_iff_eq_none, bne_iff_ne] at h
  obtain ⟨⟨notMark, notOpen⟩, notClose⟩ := h
  simp [Place.step, filterRules, notOpen, notClose, Within.step, notMark]

theorem fragments_space (u : Text) :
    Fragment.ofText filterRules {} (' ' :: u) =
      Fragment.addGap ' ' (Fragment.ofText filterRules {} u) := by
  simp [Fragment.ofText, Place.isTop, Text.isBlank]

/-- The first fragment stands behind a gap. -/
def StartsApart (fs : List Fragment) : Prop := ∀ f ∈ fs.head?, f.gap ≠ []

theorem startsApart_space (u : Text) :
    StartsApart (Fragment.ofText filterRules {} (' ' :: u)) := by
  rw [fragments_space]
  cases Fragment.ofText filterRules {} u <;> simp [StartsApart, Fragment.addGap]

theorem fragments_word {u : Text} (h : IsWord w)
    (hu : StartsApart (Fragment.ofText filterRules {} u)) :
    Fragment.ofText filterRules {} (w ++ u) = ⟨[], w⟩ :: Fragment.ofText filterRules {} u := by
  obtain ⟨nonempty, plain, seen⟩ := h
  induction w with
  | nil => contradiction
  | cons c cs ih =>
      have visible : Text.isBlank c = false := seen c (by simp)
      rw [List.cons_append, Fragment.ofText, if_neg (by simp [visible]),
        step_plain (plain c (by simp))]
      cases cs with
      | nil =>
          rw [List.nil_append]
          cases fs : Fragment.ofText filterRules {} u with
          | nil => rfl
          | cons f fs' =>
              have gap : f.gap ≠ [] := hu f (by simp [fs])
              simp [Fragment.addChar, gap]
      | cons d ds =>
          rw [ih (by simp) (fun e he => plain e (by simp [he])) fun e he => seen e (by simp [he])]
          rfl

/-! ### Items -/

theorem itemsAfter_addGap (c : Char) (fs : List Fragment) :
    itemsAfter none (Fragment.addGap c fs) = itemsAfter none fs := by
  cases fs <;> rfl

@[simp] theorem textItems_nil : textItems [] = [] := rfl

theorem textItems_space (u : Text) : textItems (' ' :: u) = textItems u := by
  rw [textItems, fragments_space, itemsAfter_addGap, textItems]

theorem fragments_blank (h : ∀ c ∈ t, Text.isBlank c = true) :
    Fragment.ofText filterRules {} t = [] := by
  induction t with
  | nil => rfl
  | cons c cs ih =>
      rw [Fragment.ofText, if_pos (by simp [Place.isTop, h c]), ih fun d hd => h d (by simp [hd])]
      rfl

theorem textItems_blank (h : ∀ c ∈ t, Text.isBlank c = true) : textItems t = [] := by
  rw [textItems, fragments_blank h]
  rfl

/-- An operator at the start of a text. -/
theorem textItems_operator (h : isOperator o = true) (u : Text) :
    textItems (o ++ ' ' :: u) = .operator o :: textItems u := by
  rw [textItems, fragments_word (isWord_of_isOperator h) (startsApart_space u), fragments_space,
    itemsAfter, if_pos h, itemsAfter_addGap, textItems]

/-- A filter alone. -/
theorem textItems_filter (h : IsFilterWord x) : textItems x = [.value (.leaf x)] := by
  have word := fragments_word (u := []) h.toIsWord (by simp [StartsApart, Fragment.ofText])
  rw [List.append_nil] at word
  rw [textItems, word, itemsAfter, if_neg (by simp [h.filter])]
  rfl

/-- An operator behind a filter ends it, unless a colon is to be followed. -/
theorem joins_operator (complete : x.endsWith ":" = false) (ho : isOperator o = true) :
    joins x o = false := by
  have name := isName_of_isOperator ho
  have complete : x.endsWith [':'] = false := complete
  simp [joins, complete, ho, name.startsWith_eq (c := ':') rfl, name.startsWith_eq (c := '(') rfl]

/-- A filter and an operator at the start of a text. -/
theorem textItems_filter_operator (h : IsFilterWord x) (ho : isOperator o = true) (u : Text) :
    textItems (x ++ ' ' :: (o ++ ' ' :: u)) = .value (.leaf x) :: .operator o :: textItems u := by
  rw [textItems, fragments_word h.toIsWord (startsApart_space _), fragments_space,
    fragments_word (isWord_of_isOperator ho) (startsApart_space u), fragments_space]
  rw [itemsAfter, if_neg (by simp [h.filter]), Fragment.addGap, itemsAfter,
    if_neg (by simp [joins_operator h.complete ho]), if_pos ho, itemsAfter_addGap, textItems]

end FilterTree

end LogQuery
