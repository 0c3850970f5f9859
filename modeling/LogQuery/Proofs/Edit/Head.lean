import LogQuery.Proofs.Edit.Label
import LogQuery.Proofs.Edit.Words

/-!
# The text before the first pipe

An edit cuts a query at its first pipe, writes the text before it anew from its words, and puts the
pipes behind it. As long as no pipe of the new text stands outside of quotes and brackets, and the
brackets are closed where pipes follow, the query is cut at the same pipe again.
-/

namespace LogQuery

open Place (Crosses)

namespace LabelEdit

variable {t u w : Text} {c : Char} {d e k : Nat} {ws : List Text}

/-! ### Brackets -/

/-- Read outside of quotes and inside `d` brackets, the text leads outside of quotes and inside `e`
brackets, and none of its pipes ends the filters. -/
abbrev Spans (d : Nat) (t : Text) (e : Nat) : Prop :=
  Crosses stageRules (· == '|') { depth := d } t { depth := e }

/-- A character that no scan takes for a bracket. -/
def isBare (c : Char) : Bool := !isOpener c && !isCloser c

theorem step_stageRules_bare (h : isBare c = true) (slash : c ≠ '\\') (d : Nat) (v : Within) :
    Place.step stageRules { depth := d, within := v } c =
      { depth := d, within := v.step false c } := by
  simp only [isBare, Bool.and_eq_true, Bool.not_eq_true'] at h
  cases v <;> simp [Place.step, stageRules, h, slash]

theorem isBare_of_isBlank (h : Text.isBlank c = true) : isBare c = true := by
  rw [isBare, isOpener_of_isBlank h, isCloser_of_isBlank h]
  rfl

/-- Without escapes, pipes are looked for with the same quotes in mind as white space. -/
theorem exists_step_stageRules (d : Nat) (v : Within) (slash : c ≠ '\\') :
    ∃ e, Place.step stageRules { depth := d, within := v } c =
      { depth := e, within := v.step false c } := by
  have bracket (h : isOpener c = true ∨ isCloser c = true) :
      Within.outside.step false c = .outside := by
    have plain : QuoteMark.ofChar? c = none := by
      simp only [isOpener, isCloser, Bool.or_eq_true, beq_iff_eq] at h
      rcases h with ((rfl | rfl) | rfl) | ((rfl | rfl) | rfl) <;> rfl
    simp [Within.step, plain]
  cases v with
  | inside m => exact ⟨d, by simp [Place.step, stageRules]⟩
  | escaped m => exact ⟨d, by simp [Place.step, stageRules]⟩
  | outside =>
      cases opener : isOpener c with
      | true =>
          refine ⟨d + 1, ?_⟩
          rw [bracket (.inl opener)]
          simp [Place.step, stageRules, slash, opener]
      | false =>
          cases closer : isCloser c with
          | true =>
              refine ⟨d - 1, ?_⟩
              rw [bracket (.inr closer)]
              simp [Place.step, stageRules, slash, opener, closer]
          | false => exact ⟨d, by simp [Place.step, stageRules, slash, opener, closer]⟩

theorem exists_of_crosses {v : Within} {p : Place} (slash : '\\' ∉ t)
    (h : Crosses stageRules (· == '|') { depth := d, within := v } t p) :
    ∃ e, p = { depth := e, within := v.past t } := by
  induction t generalizing d v with
  | nil =>
      cases h
      exact ⟨d, rfl⟩
  | cons c t ih =>
      rw [List.mem_cons, not_or] at slash
      obtain ⟨e, step⟩ := exists_step_stageRules d v (Ne.symm slash.1)
      obtain ⟨-, rest⟩ := Place.crosses_cons_iff.mp h
      rw [step] at rest
      exact ih slash.2 rest

theorem mem_splitHead {q : Text} (h : c ∈ (splitHead q).1) : c ∈ q := by
  rw [← Place.splitBefore_append_eq stageRules (· == '|') {} q]
  exact List.mem_append_left _ h

/-- The head of a query, up to the pipe where it is cut. -/
theorem exists_spans_head {q : Text} (slash : '\\' ∉ (splitHead q).1)
    (closed : QuotesClosed (splitHead q).1) :
    ∃ d, Spans 0 (splitHead q).1 d ∧ ((splitHead q).2 ≠ [] → d = 0) := by
  obtain ⟨p, crosses, top⟩ := Place.exists_crosses_splitBefore stageRules (· == '|') {} q
  obtain ⟨d, rfl⟩ := exists_of_crosses slash crosses
  refine ⟨d, ?_, fun pipes => ?_⟩
  · rwa [show Within.outside.past (splitHead q).1 = .outside from closed] at crosses
  · have := top pipes
    simp only [Place.isTop, Bool.and_eq_true, beq_iff_eq] at this
    exact this.1.1

theorem step_stageRules_blank (h : Text.isBlank c = true) (d : Nat) :
    Place.step stageRules { depth := d } c = { depth := d } := by
  rw [step_stageRules_bare (isBare_of_isBlank h) (Text.ne_of_isBlank h (by decide)),
    Within.step_outside_unmarked (QuoteMark.ofChar?_of_isBlank h)]

theorem spans_blank (hg : ∀ c ∈ t, Text.isBlank c = true) (d : Nat) : Spans d t d := by
  refine .of_fixed fun c hc => ⟨step_stageRules_blank (hg c hc) d, ?_⟩
  simpa using Text.ne_of_isBlank (hg c hc) (d := '|') (by decide)

/-- White space at the ends is no part of the way. -/
theorem spans_trim (h : Spans 0 t d) (slash : '\\' ∉ t) (closed : QuotesClosed t) :
    Spans 0 t.trim d := by
  obtain ⟨before, after, split, blank, blank'⟩ := Text.exists_trim t
  have inside : QuotesClosed t.trim := (quotesClosed_trim closed).1
  have kept : '\\' ∉ t.trim := by
    intro hm
    rw [split] at slash
    exact slash (by simp [hm])
  rw [split] at h
  obtain ⟨p, h, ending⟩ := Place.crosses_append_iff.mp h
  obtain ⟨o, start, h⟩ := Place.crosses_append_iff.mp h
  obtain rfl := (spans_blank blank 0).unique start
  obtain ⟨e, rfl⟩ := exists_of_crosses kept h
  rw [show Within.outside.past t.trim = .outside from inside] at h ending
  obtain rfl : d = e := by simpa using (spans_blank blank' e).unique ending
  exact h

/-! ### Plain words -/

/-- A character that no cut looks at: no white space, quote mark, bracket, escape or pipe. -/
def isOrdinary (c : Char) : Bool :=
  Lexer.isInert c && !Text.isBlank c && c != '\\' && c != '|'

/-- A word of ordinary characters. -/
structure IsPlainWord (w : Text) : Prop where
  nonempty : w ≠ []
  ordinary : ∀ c ∈ w, isOrdinary c = true

instance (w : Text) : Decidable (IsPlainWord w) :=
  decidable_of_iff (w ≠ [] ∧ w.all isOrdinary = true)
    ⟨fun h => ⟨h.1, List.all_eq_true.mp h.2⟩,
      fun h => ⟨h.nonempty, List.all_eq_true.mpr h.ordinary⟩⟩

theorem isOrdinary_of_isNameChar (h : Text.isNameChar c = true) : isOrdinary c = true := by
  simp [isOrdinary, Lexer.isInert_of_isNameChar h, Text.isBlank_of_isNameChar h,
    Text.ne_of_isNameChar h (d := '\\') rfl, Text.ne_of_isNameChar h (d := '|') rfl]

/-- An ordinary character is none of the others. -/
theorem ne_of_isOrdinary {x : Char} (h : isOrdinary c = true) (hx : isOrdinary x = false) :
    c ≠ x := by
  rintro rfl
  rw [hx] at h
  contradiction

theorem isBare_of_isOrdinary (h : isOrdinary c = true) : isBare c = true := by
  simp [isBare, isOpener, isCloser, ne_of_isOrdinary h (x := '(') rfl,
    ne_of_isOrdinary h (x := ')') rfl, ne_of_isOrdinary h (x := '[') rfl,
    ne_of_isOrdinary h (x := ']') rfl, ne_of_isOrdinary h (x := '{') rfl,
    ne_of_isOrdinary h (x := '}') rfl]

theorem ofChar?_of_isOrdinary (h : isOrdinary c = true) : QuoteMark.ofChar? c = none := by
  simp [QuoteMark.ofChar?, ne_of_isOrdinary h (x := '`') rfl, ne_of_isOrdinary h (x := '"') rfl,
    ne_of_isOrdinary h (x := '\'') rfl]

theorem step_stageRules_ordinary (h : isOrdinary c = true) (d : Nat) :
    Place.step stageRules { depth := d } c = { depth := d } := by
  rw [step_stageRules_bare (isBare_of_isOrdinary h) (ne_of_isOrdinary h rfl),
    Within.step_outside_unmarked (ofChar?_of_isOrdinary h)]

namespace IsPlainWord

theorem of_isName (h : w.IsName) : IsPlainWord w :=
  ⟨h.nonempty, fun c hc => isOrdinary_of_isNameChar (h.chars c hc)⟩

theorem not_mem (h : IsPlainWord w) (hc : isOrdinary c = false) : c ∉ w :=
  fun hm => ne_of_isOrdinary (h.ordinary c hm) hc rfl

theorem isWord (h : IsPlainWord w) : IsWord w := by
  refine .of_plain h.nonempty (fun c hc => ?_) fun c hc => ofChar?_of_isOrdinary (h.ordinary c hc)
  have ordinary := h.ordinary c hc
  simp only [isOrdinary, Bool.and_eq_true, Bool.not_eq_true'] at ordinary
  exact ordinary.1.1.2

theorem spans (h : IsPlainWord w) (d : Nat) : Spans d w d := by
  refine .of_fixed fun c hc => ⟨step_stageRules_ordinary (h.ordinary c hc) d, ?_⟩
  simpa using ne_of_isOrdinary (h.ordinary c hc) (x := '|') rfl

end IsPlainWord

/-- Plain words lead nowhere else. -/
theorem spans_join (h : ∀ w ∈ ws, IsPlainWord w) (d : Nat) : Spans d (Text.join " " ws) d :=
  Text.join_of .nil .append (spans_blank (by simp [Text.isBlank]) d) fun w hw => (h w hw).spans d

theorem isPlainWord_star : IsPlainWord ['*'] := by decide

/-- A connective is made of letters. -/
theorem isName_of_isConnective (h : isConnective w = true) : w.IsName := by
  rw [isConnective, Bool.or_eq_true] at h
  rcases h with operator | negation
  · exact FilterTree.isName_of_isOperator operator
  · exact FilterTree.isName_of_sameFold (k := "not") negation (by simp) (by rfl)

/-! ### Cutting again -/

/-- The space between a head and its pipes. -/
def gapBehind (pipes : Text) : Text := if pipes.isEmpty then [] else [' ']

theorem isBlank_gapBehind (pipes : Text) : ∀ c ∈ gapBehind pipes, Text.isBlank c = true := by
  rw [gapBehind]
  split
  · simp
  · simpa using (by decide : Text.isBlank ' ' = true)

theorem breaks_gapBehind (pipes : Text) : Breaks (gapBehind pipes) :=
  fun c hc => isBlank_gapBehind pipes c (List.mem_of_mem_head? hc)

theorem words_gapBehind (pipes : Text) : words (gapBehind pipes) = [] :=
  words_blank (isBlank_gapBehind pipes)

/-- What is cut off starts with a bar, and nothing in front of the bar is trimmed. -/
theorem pipes_eq_nil_or (q : Text) : (splitHead q).2 = [] ∨
    ∃ cs, (splitHead q).2 = '|' :: cs ∧ (splitHead q).2.trim = '|' :: Text.trimEnd cs := by
  rcases Place.splitBefore_cases stageRules (· == '|') {} q with none | ⟨c, cs, pipes, bar⟩
  · exact .inl none
  · obtain rfl : c = '|' := by simpa using bar
    refine .inr ⟨cs, pipes, ?_⟩
    rw [splitHead, pipes]
    exact Text.trim_append_cons [] (by decide) cs

/-- A query is cut in front of its pipes again. -/
theorem splitHead_append_behind {q : Text} (h : Spans 0 t d) (top : (splitHead q).2 ≠ [] → d = 0) :
    splitHead (t ++ behind q) = (t ++ gapBehind (splitHead q).2, (splitHead q).2.trim) := by
  rw [splitHead, h.splitBefore_append, behind, gapBehind]
  rcases pipes_eq_nil_or q with none | ⟨cs, pipes, trimmed⟩
  · rw [none]
    rfl
  · obtain rfl : d = 0 := top (by simp [pipes])
    rw [trimmed, pipes]
    rfl

theorem behind_eq_of_trim {q q' : Text} (h : (splitHead q').2 = (splitHead q).2.trim) :
    behind q' = behind q := by
  rw [behind, behind, h, Text.trim_trim]
  rcases pipes_eq_nil_or q with none | ⟨cs, pipes, trimmed⟩
  · rw [none]
    rfl
  · rw [trimmed, pipes]
    rfl

/-- The words of a head that is written from these words. A head without words is a star in front
of pipes. -/
def shownWords (ws : List Text) (pipes : Text) : List Text :=
  if ws = [] ∧ pipes ≠ [] then ["*"] else ws

theorem shownWords_of_ne_nil (h : ws ≠ []) (pipes : Text) : shownWords ws pipes = ws :=
  if_neg fun star => h star.1

theorem joinHead_join {q : Text} (h : ∀ w ∈ ws, IsWord w) :
    joinHead (Text.join " " ws) (splitHead q).2 =
      Text.join " " (shownWords ws (splitHead q).2) ++ behind q := by
  by_cases none : ws = []
  · subst none
    rw [joinHead, behind, shownWords]
    cases (splitHead q).2 <;> rfl
  · rw [joinHead_of_tight (.join (fun w hw => (h w hw).tight) none _), behind, shownWords_of_ne_nil none]

/-- Where the query is cut that is written from these words in front of the pipes of another. -/
theorem splitHead_joinHead {q : Text} (h : ∀ w ∈ ws, IsWord w) (spans : Spans 0 (Text.join " " ws) d)
    (top : (splitHead q).2 ≠ [] → d = 0) :
    splitHead (joinHead (Text.join " " ws) (splitHead q).2) =
      (Text.join " " (shownWords ws (splitHead q).2) ++ gapBehind (splitHead q).2,
        (splitHead q).2.trim) := by
  rw [joinHead_join h]
  by_cases star : ws = [] ∧ (splitHead q).2 ≠ []
  · rw [shownWords, if_pos star]
    exact splitHead_append_behind (isPlainWord_star.spans 0) fun _ => rfl
  · rw [shownWords, if_neg star]
    exact splitHead_append_behind spans top

theorem forall_mem_shownWords {p : Text → Prop} (star : p "*") (h : ∀ w ∈ ws, p w) (pipes : Text) :
    ∀ w ∈ shownWords ws pipes, p w := by
  rw [shownWords]
  split
  · simpa using star
  · exact h

/-- The words of that head. -/
theorem words_splitHead_joinHead {q : Text} (h : ∀ w ∈ ws, IsWord w)
    (spans : Spans 0 (Text.join " " ws) d) (top : (splitHead q).2 ≠ [] → d = 0) :
    words (splitHead (joinHead (Text.join " " ws) (splitHead q).2)).1 =
      shownWords ws (splitHead q).2 := by
  rw [splitHead_joinHead h spans top,
    words_join_append (forall_mem_shownWords isPlainWord_star.isWord h _) (breaks_gapBehind _), words_gapBehind,
    List.append_nil]

end LabelEdit

end LogQuery
