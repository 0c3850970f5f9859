import LogQuery.Proofs.Quoting.DoubleQuotes
import LogQuery.Proofs.Quoting.Phrases
import LogQuery.Proofs.Stream.Operator
import LogQuery.Filter.Stream
import LogQuery.Stream.Rows

/-!
# Selectors of stream filter rows

A row is written as a selector, a label with a list of values in double quotes. The braces around
it are captured, what they hold is cut at its commas, and the selector is read from its tokens, the
list once more from tokens of its own. All of these pass over the list of values, since each value
keeps them between its quotes.
-/

namespace LogQuery

open Lexer (Lexes Spells)

namespace Place

variable {r : PlaceRules} {cut : Char → Bool} {p q : Place} {t u : Text} {depth : Nat}

/-- A text that leads from one place to another, with no cut in it. -/
inductive Crosses (r : PlaceRules) (cut : Char → Bool) : Place → Text → Place → Prop
  | nil {p : Place} : Crosses r cut p [] p
  | cons {p q : Place} {c : Char} {t : Text} (uncut : (p.isTop && cut c) = false)
      (rest : Crosses r cut (p.step r c) t q) : Crosses r cut p (c :: t) q

namespace Crosses

theorem append {o : Place} (ht : Crosses r cut p t q) (hu : Crosses r cut q u o) :
    Crosses r cut p (t ++ u) o := by
  induction ht with
  | nil => exact hu
  | cons uncut _ ih => exact .cons uncut (ih hu)

theorem cutAt_eq (h : Crosses r cut p t q) : cutAt r cut p t = [t] := by
  induction h with
  | nil => rfl
  | cons uncut _ ih => rw [cutAt, uncut, ih]; rfl

/-- Between quotes nothing is cut. -/
theorem of_stays {w : Within} (h : w.Stays t) :
    Crosses selectorRules cut { depth, within := w } t { depth, within := w.after t } := by
  induction t generalizing w with
  | nil => exact .nil
  | cons c t ih =>
      have quoted : w ≠ .outside := h.1
      have step : ({ depth, within := w } : Place).step selectorRules c =
          { depth, within := w.step true c } := by
        simp [Place.step, selectorRules, quoted]
      refine .cons (by simp [isTop, quoted]) ?_
      rw [step]
      exact ih h.2

theorem of_inert (h : Lexer.AllInert t) (ht : depth ≠ 0 ∨ ∀ c ∈ t, cut c = false) :
    Crosses selectorRules cut { depth } t { depth } := by
  induction t with
  | nil => exact .nil
  | cons c t ih =>
      have inert := h c (by simp)
      simp only [Lexer.isInert, List.contains_eq_mem, List.mem_cons, List.not_mem_nil, or_false,
        not_or, Bool.not_eq_true', decide_eq_false_iff_not] at inert
      have step : ({ depth } : Place).step selectorRules c = { depth } := by
        simp [Place.step, selectorRules, isOpener, isCloser, Within.step, QuoteMark.ofChar?, inert]
      have uncut : (({ depth } : Place).isTop && cut c) = false := by
        rcases ht with deep | none
        · simp [isTop, deep]
        · simp [none c (by simp)]
      refine .cons uncut ?_
      rw [step]
      exact ih (fun d hd => h d (by simp [hd]))
        (ht.imp_right fun none d hd => none d (by simp [hd]))

/-- Inside of brackets, a quoted text that leads outside with its closing mark only. -/
theorem between {m : QuoteMark} (stays : (Within.inside m).Stays t)
    (closed : (Within.inside m).after t = .inside m) (deep : depth ≠ 0) :
    Crosses selectorRules cut { depth } (Quoting.between m t) { depth } := by
  have opening : ({ depth } : Place).step selectorRules m.char =
      { depth, within := .inside m } := by
    cases m <;> rfl
  have closing : ({ depth, within := .inside m } : Place).step selectorRules m.char =
      { depth } := by
    cases m <;> rfl
  have inside : Crosses selectorRules cut { depth, within := .inside m } t
      { depth, within := (Within.inside m).after t } := of_stays stays
  rw [closed] at inside
  refine .cons (by simp [isTop, deep]) ?_
  rw [opening]
  refine inside.append (.cons (by simp [isTop]) ?_)
  rw [closing]
  exact .nil

/-- Round brackets and what they hold. -/
theorem brackets (outer : depth ≠ 0 ∨ cut '(' = false)
    (h : Crosses selectorRules cut { depth := depth + 1 } t { depth := depth + 1 }) :
    Crosses selectorRules cut { depth } ('(' :: (t ++ [')'])) { depth } := by
  have uncut : (({ depth } : Place).isTop && cut '(') = false := by
    rcases outer with deep | none
    · simp [isTop, deep]
    · simp [none]
  exact .cons uncut (h.append (.cons (by simp [isTop]) .nil))

end Crosses

end Place

namespace StreamRow

variable {r : StreamRow}

/-- The row has a label and a value. -/
def isComplete (r : StreamRow) : Bool := !r.label.isEmpty && !r.values.isEmpty

/-- What the row asks of the label. -/
def selector (r : StreamRow) : StreamSelector where
  label := r.label
  negated := r.operator == .notEqual
  values := r.values

/-- The word between the label and the list of values. -/
def word (r : StreamRow) : Text := if r.operator == .notEqual then "not_in" else "in"

/-- The values in quotes, with commas between. -/
def valueList (r : StreamRow) : Text := Text.join ", " (r.values.map Quoting.inDoubleQuotes)

/-- The text between the braces of a complete row. -/
def selectorText (r : StreamRow) : Text :=
  r.label ++ ' ' :: (r.word ++ ' ' :: ('(' :: (r.valueList ++ [')'])))

/-- A row without variables, whose label is a name where there is one. -/
structure IsPlain (r : StreamRow) : Prop where
  label : r.label = [] ∨ r.label.IsName
  values : ∀ v ∈ r.values, v.startsWith "$" = false

theorem IsPlain.isName (h : r.IsPlain) (complete : r.isComplete = true) : r.label.IsName := by
  refine h.label.resolve_left ?_
  rintro empty
  simp [isComplete, empty] at complete

theorem values_ne_nil (complete : r.isComplete = true) : r.values ≠ [] := by
  rintro empty
  simp [isComplete, empty] at complete

theorem isName_word (r : StreamRow) : r.word.IsName := by
  unfold word
  split <;> decide

/-! ### The list of values -/

theorem passed_valueList (r : StreamRow) : Lexer.Scan.Passed r.valueList := by
  refine Quoting.passed_join fun q hq => ?_
  obtain ⟨v, -, rfl⟩ := List.mem_map.mp hq
  exact Quoting.passed_inDoubleQuotes v

theorem tokensWithin_valueList (complete : r.isComplete = true) {levels : Nat} :
    Lexer.tokensWithin (levels + 1) r.valueList =
      Quoting.quoteTokens (r.values.map Quoting.inDoubleQuotes) := by
  refine (Spells.of_lexes (.join (fun q hq => ?_) ?_ _)
    (Quoting.lexes_join fun q hq => ?_)).tokensWithin_eq
  · obtain ⟨v, -, rfl⟩ := List.mem_map.mp hq
    exact Quoting.tight_inDoubleQuotes v
  · simpa using values_ne_nil complete
  · obtain ⟨v, -, rfl⟩ := List.mem_map.mp hq
    exact Quoting.lexes_inDoubleQuotes v

/-- Inside of brackets no comma of the list is cut at. -/
theorem crosses_valueList (r : StreamRow) (cut : Char → Bool) {depth : Nat} (deep : depth ≠ 0) :
    Place.Crosses selectorRules cut { depth } r.valueList { depth } := by
  have separator : Place.Crosses selectorRules cut { depth } ", " { depth } :=
    .of_inert (by decide) (.inl deep)
  refine Text.join_of (P := fun t => Place.Crosses selectorRules cut { depth } t { depth }) .nil
    .append separator fun q hq => ?_
  obtain ⟨v, -, rfl⟩ := List.mem_map.mp hq
  exact .between (Within.stays_forDouble v) (Within.after_forDouble v) deep

/-! ### The selector -/

theorem allInert_of_isName {t : Text} (h : t.IsName) : Lexer.AllInert t := fun c hc =>
  Lexer.isInert_of_isNameChar (h.chars c hc)

/-- Braces capture the selector whole. -/
theorem passed_selectorText (h : r.IsPlain) (complete : r.isComplete = true) :
    Lexer.Scan.Passed r.selectorText := by
  have space : Lexer.Scan.Passed [' '] := Lexer.Scan.passed_inert (by decide)
  have label : Lexer.Scan.Passed r.label :=
    Lexer.Scan.passed_inert (allInert_of_isName (h.isName complete))
  have word : Lexer.Scan.Passed r.word := Lexer.Scan.passed_inert (allInert_of_isName r.isName_word)
  have list : Lexer.Scan.Passed ('(' :: (r.valueList ++ [')'])) :=
    r.passed_valueList.brackets rfl rfl
  exact label.append (space.append (word.append (space.append list)))

theorem tight_selectorText (h : r.IsPlain) (complete : r.isComplete = true) :
    r.selectorText.Tight := by
  have closing : Text.Tight [')'] := .singleton (by decide)
  have whole := (h.isName complete).tight.around
    (' ' :: (r.word ++ ' ' :: '(' :: r.valueList)) closing
  simpa [selectorText] using whole

/-- The commas stand inside the round brackets, so the selector is the only one. -/
theorem selectors_selectorText (h : r.IsPlain) (complete : r.isComplete = true) :
    Filter.Stream.selectors r.selectorText = [r.selectorText] := by
  have noComma {t : Text} (ht : t.IsName) :
      Place.Crosses selectorRules (· == ',') {} t {} := by
    refine .of_inert (allInert_of_isName ht) (.inr fun c hc => ?_)
    simpa using Text.ne_of_isNameChar (ht.chars c hc) (d := ',') (by decide)
  have space : Place.Crosses selectorRules (· == ',') {} [' '] {} :=
    .of_inert (by decide) (.inr (by simp))
  have list : Place.Crosses selectorRules (· == ',') {} ('(' :: (r.valueList ++ [')'])) {} :=
    .brackets (.inr rfl) (r.crosses_valueList _ (by decide))
  have whole : Place.Crosses selectorRules (· == ',') {} r.selectorText {} :=
    (noComma (h.isName complete)).append
      (space.append ((noComma r.isName_word).append (space.append list)))
  rw [Filter.Stream.selectors, whole.cutAt_eq, List.map_singleton,
    (tight_selectorText h complete).trim_eq]

/-- The tokens of a selector: the label, the word, and the list with tokens of its own. -/
theorem tokenize_selectorText (h : r.IsPlain) (complete : r.isComplete = true) :
    tokenize r.selectorText = [.word r.label, .word r.word,
      .bracket [] ('(' :: (r.valueList ++ [')']))
        (Quoting.quoteTokens (r.values.map Quoting.inDoubleQuotes))] := by
  have opening : Text.Tight ['('] := .singleton (by decide)
  have closing : Text.Tight [')'] := .singleton (by decide)
  have list : Lexes 63 ('(' :: (r.valueList ++ [')'])) _ :=
    Lexes.capture (w := []) (o := '(') (d := ')') rfl rfl (by simp) r.passed_valueList.captured
  rw [tokensWithin_valueList complete] at list
  have spells : Spells 63 r.selectorText _ :=
    (Spells.name (h.isName complete)).space ((Spells.name r.isName_word).space
      (.of_lexes (by simpa using opening.around r.valueList closing) list))
  exact spells.tokensWithin_eq

/-- A selector is read back as what the row asks for. -/
theorem ofText_selectorText (h : r.IsPlain) (complete : r.isComplete = true) :
    StreamSelector.ofText r.selectorText = r.selector := by
  have quoted : ∀ q ∈ r.values.map Quoting.inDoubleQuotes,
      ((Token.quote q).isValue && !(Token.quote q).hasText ",") = true := by
    intro q hq
    obtain ⟨v, -, rfl⟩ := List.mem_map.mp hq
    simp [Token.isValue, Token.hasText, Token.text?, Quoting.inDoubleQuotes, Quoting.between,
      QuoteMark.char]
  have values : ((Quoting.quoteTokens (r.values.map Quoting.inDoubleQuotes)).filter
      fun t => t.isValue && !t.hasText ",").map Token.value = r.values := by
    rw [Quoting.filter_quoteTokens quoted rfl, List.map_map, List.map_map]
    exact (List.map_congr_left fun v _ => Quoting.unquote_inDoubleQuotes v).trans (List.map_id _)
  have negated : StreamSelector.negations.contains r.word = (r.operator == .notEqual) := by
    unfold word
    cases r.operator <;> decide
  rw [StreamSelector.ofText_of_tokens (tokenize_selectorText h complete), negated, values]
  rfl

end StreamRow

end LogQuery
