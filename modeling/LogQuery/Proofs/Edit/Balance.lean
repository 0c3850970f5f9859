import LogQuery.Proofs.Edit.Brackets
import LogQuery.Proofs.Edit.Removal

/-!
# Brackets around a gap

Round brackets stand glued to words. Those at the ends of a word that have no partner in it move to
a neighbour when the word is taken out. So a head stays balanced, and the query is cut at the same
pipe.
-/

namespace LogQuery

open FilterTree (closes IsBalanced)

namespace LabelEdit

variable {F : Nat → Text → Prop} {key value q w word t : Text} {c : Char} {d k : Nat}
  {before after ws ws' b a : List Text}

/-! ### Closing the gap -/

theorem quotesClosed_unbracketed (h : QuotesClosed w) : QuotesClosed (unbracketed w) := by
  have unmarked (k : Nat) {c : Char} (hc : QuoteMark.ofChar? c = none) :
      ∀ d ∈ List.replicate k c, QuoteMark.ofChar? d = none := by
    simpa [List.mem_replicate] using fun _ => hc
  rw [QuotesClosed, eq_replicate_append w, Within.past_append, Within.past_append,
    Within.past_unmarked (unmarked _ rfl)] at h
  exact Within.past_unmarked_eq_outside (unmarked _ rfl) h

/-- Of a word without brackets inside, only those at its ends that have no partner count. -/
theorem CountsBrackets.surplus (hF : CountsBrackets F) (hw : IsRawWord w)
    (bare : ∀ c ∈ unbracketed w, isBare c = true) (h : F d (w ++ t)) :
    F d (List.replicate (openings w - closings w) '(' ++
      (List.replicate (closings w - openings w) ')' ++ t)) := by
  have raw : '\\' ∉ unbracketed w := fun slash => hw.raw (mem_of_mem_unbracketed slash)
  rw [eq_replicate_append w, List.append_assoc, List.append_assoc, hF.openers] at h
  have inside := hF.bare (quotesClosed_unbracketed hw.quotesClosed) raw bare h
  rcases Nat.le_total (closings w) (openings w) with opens | closes
  · obtain ⟨k, split⟩ := Nat.exists_eq_add_of_le' opens
    rw [split, ← Nat.add_assoc, hF.closers] at inside
    rw [split, Nat.add_sub_cancel, Nat.sub_eq_zero_of_le (Nat.le_add_left _ _)]
    exact hF.openers.mpr inside
  · obtain ⟨k, split⟩ := Nat.exists_eq_add_of_le closes
    rw [split, List.replicate_add, List.append_assoc, hF.closers] at inside
    rw [split, Nat.add_sub_cancel_left, Nat.sub_eq_zero_of_le (Nat.le_add_right _ _)]
    exact inside

theorem flatten_closeGap (word : Text) (b a : List Text) :
    (closeGap word b a).flatten =
      b.flatten ++ (List.replicate (openings word - closings word) '(' ++
        (List.replicate (closings word - openings word) ')' ++ a.flatten)) := by
  rw [closeGap]
  split
  · next opens =>
    have less : closings word - openings word = 0 := by omega
    cases a <;> simp [glueFirst, less]
  · next closes =>
    have less : openings word - closings word = 0 := by omega
    rcases List.eq_nil_or_concat' b with rfl | ⟨ws, w, rfl⟩
    · rw [glueLast, less]
      cases closings word - openings word <;> simp [List.replicate_succ]
    · simp [glueLast_concat, less]

theorem isRawWord_glueFirst (hk : 0 < k) (h : ∀ w ∈ ws, IsRawWord w) :
    ∀ w ∈ glueFirst (List.replicate k '(') ws, IsRawWord w := by
  have brackets := IsRawWord.replicate hk (c := '(') (.inl rfl)
  cases ws with
  | nil => simpa [glueFirst] using brackets
  | cons w ws =>
      rw [List.forall_mem_cons] at h
      simpa [glueFirst] using ⟨brackets.append h.1, h.2⟩

theorem isRawWord_glueLast (h : ∀ w ∈ ws, IsRawWord w) :
    ∀ w ∈ glueLast (List.replicate k ')') ws, IsRawWord w := by
  rcases Nat.eq_zero_or_pos k with rfl | hk
  · rwa [List.replicate_zero, glueLast_nil]
  have brackets := IsRawWord.replicate hk (c := ')') (.inr rfl)
  rcases List.eq_nil_or_concat' ws with rfl | ⟨ws, w, rfl⟩
  · simpa [glueLast, hk.ne'] using brackets
  · rw [List.forall_mem_append, List.forall_mem_singleton] at h
    rw [glueLast_concat, List.forall_mem_append, List.forall_mem_singleton]
    exact ⟨h.1, h.2.append brackets⟩

theorem isRawWord_closeGap (hb : ∀ w ∈ b, IsRawWord w) (ha : ∀ w ∈ a, IsRawWord w) :
    ∀ w ∈ closeGap word b a, IsRawWord w := by
  rw [closeGap]
  split
  · next opens =>
    exact List.forall_mem_append.mpr ⟨hb, isRawWord_glueFirst (Nat.sub_pos_of_lt opens) ha⟩
  · exact List.forall_mem_append.mpr ⟨isRawWord_glueLast hb, ha⟩

/-- Brackets that are balanced find a neighbour, and nothing but brackets is moved. -/
theorem map_closeGap (balanced : closes 0 .outside (closeGap word b a).flatten = true) :
    (closeGap word b a).map unbracketed = (b ++ a).map unbracketed := by
  rw [flatten_closeGap] at balanced
  rw [closeGap]
  split
  · next opens =>
    have more : 0 < openings word - closings word := by omega
    have less : closings word - openings word = 0 := by omega
    cases a with
    | nil =>
        rw [less, List.replicate_zero, List.flatten_nil, List.append_nil, List.append_nil,
          not_closes_openers more] at balanced
        contradiction
    | cons w a => simp [glueFirst, unbracketed_replicate_append]
  · next closes =>
    have less : openings word - closings word = 0 := by omega
    rcases List.eq_nil_or_concat' b with rfl | ⟨ws, w, rfl⟩
    · rw [less] at balanced
      cases surplus : closings word - openings word with
      | zero => rfl
      | succ k =>
          rw [surplus] at balanced
          contradiction
    · simp [glueLast_concat, unbracketed_append_replicate]

/-- The brackets that are still open stay the same when a word and a connective go. -/
theorem CountsBrackets.takeOut (hF : CountsBrackets F) (hbefore : ∀ w ∈ before, IsRawWord w)
    (hword : IsRawWord word) (bare : ∀ c ∈ unbracketed word, isBare c = true)
    (gap : Closes before after b a) (h : F d (before ++ word :: after).flatten) :
    F d (closeGap word b a).flatten := by
  have rest (d : Nat) (h : F d (word ++ a.flatten)) := hF.surplus (d := d) hword bare h
  rw [flatten_closeGap]
  rw [List.flatten_append, List.flatten_cons] at h
  cases gap with
  | whole => exact hF.behind_flatten hbefore rest h
  | @connectiveBefore b c connective split =>
      subst split
      rw [List.flatten_append, List.flatten_singleton, List.append_assoc] at h
      refine hF.behind_flatten (fun w hw => hbefore w (by simp [hw])) (fun d h => ?_) h
      exact rest d (hF.connective connective h)
  | @connectiveAfter a c connective split =>
      subst split
      refine hF.behind_flatten hbefore (fun d h => rest d ?_) h
      exact hF.behind hword.quotesClosed hword.raw (fun d h => hF.connective connective h) h

/-! ### What a match holds -/

theorem unescape_of_raw (raw : '\\' ∉ t) (mode : EscapeMode) (m : QuoteMark) :
    Quoting.unescape mode m t = t := by
  have same (c : Char) : Escape.remove mode c t = t := by
    induction t with
    | nil => cases mode <;> rfl
    | cons b t ih =>
        rw [List.mem_cons, not_or] at raw
        rw [Escape.remove_cons_of_head? mode fun slash => absurd slash.symm raw.1, ih raw.2]
  cases m <;> simp [Quoting.unescape, same]

/-- Without escapes, only marks are taken off. -/
theorem mem_unquote_of_raw (raw : '\\' ∉ t) (hc : c ∈ t) (unmarked : QuoteMark.ofChar? c = none) :
    c ∈ Quoting.unquote t := by
  cases t with
  | nil => contradiction
  | cons d t =>
      rw [Quoting.unquote, Quoting.unquoteWith]
      split
      · exact hc
      · next m mark =>
        obtain rfl := QuoteMark.ofChar?_eq_some_iff.mp mark
        have other : c ≠ m.char := by
          rintro rfl
          rw [QuoteMark.ofChar?_eq_some_iff.mpr rfl] at unmarked
          contradiction
        split
        · next last =>
          have inner : c ∈ t := (List.mem_cons.mp hc).resolve_left other
          rcases List.eq_nil_or_concat' t with rfl | ⟨u, e, rfl⟩
          · contradiction
          obtain rfl : e = m.char := by simpa [List.getLast?_cons] using last
          rw [List.mem_cons, not_or, List.mem_append, not_or] at raw
          rw [List.dropLast_concat, unescape_of_raw raw.2.1]
          exact (List.mem_append.mp inner).resolve_right (by simpa using other)
        · exact hc

/-- Inside of a match stand no brackets but those of the value. -/
theorem isBare_of_isFilter (hkey : ∀ c ∈ key, Text.isNameChar c = true)
    (hvalue : ∀ c ∈ value, isBare c = true) (raw : '\\' ∉ w)
    (found : isFilter key value w = true) : ∀ c ∈ unbracketed w, isBare c = true := by
  obtain ⟨sign, rest, hsign, shape, same⟩ := exists_operand found
  have whole := List.takeWhile_append_dropWhile (p := fun c => c == '!' || c == '-')
    (l := unbracketed w)
  rw [shape] at whole
  have rawRest : '\\' ∉ rest := fun slash =>
    raw (mem_of_mem_unbracketed (by rw [← whole]; simp [slash]))
  intro c hc
  rw [← whole, List.mem_append, List.mem_append, List.mem_append] at hc
  rcases hc with negation | name | comparison | operand
  · have := List.mem_takeWhile_imp negation
    simp only [Bool.or_eq_true, beq_iff_eq] at this
    rcases this with rfl | rfl <;> rfl
  · exact isBare_of_isOrdinary (isOrdinary_of_isNameChar (hkey c name))
  · have plain : ∀ c ∈ sign, isBare c = true := by
      simp only [List.mem_cons, List.not_mem_nil, or_false] at hsign
      rcases hsign with rfl | rfl | rfl <;> simp [isBare, isOpener, isCloser]
    exact plain c comparison
  · rcases same with rfl | rfl
    · exact hvalue c operand
    · cases mark : QuoteMark.ofChar? c with
      | none => exact hvalue c (mem_unquote_of_raw rawRest operand mark)
      | some m =>
          obtain rfl := QuoteMark.ofChar?_eq_some_iff.mp mark
          cases m <;> rfl

theorem countP_closes (gap : Closes before after b a) :
    (b ++ a).countP (isFilter key value) = (before ++ after).countP (isFilter key value) := by
  cases gap with
  | whole => rfl
  | connectiveBefore connective split => simp [split, isFilter_of_isConnective connective]
  | connectiveAfter connective split => simp [split, isFilter_of_isConnective connective]

/-! ### The head without a filter -/

theorem map_shownWords (f : Text → Text) (h : ws.map f = ws'.map f) (pipes : Text) :
    (shownWords ws pipes).map f = (shownWords ws' pipes).map f := by
  have empty : ws = [] ↔ ws' = [] := by
    rw [← List.map_eq_nil_iff (f := f), h, List.map_eq_nil_iff]
  simp only [shownWords, empty]
  split
  · rfl
  · exact h

theorem closes_shownWords (h : closes 0 .outside ws.flatten = true) (pipes : Text) :
    closes 0 .outside (shownWords ws pipes).flatten = true := by
  rw [shownWords]
  split
  · rfl
  · exact h

theorem countP_shownWords (ws : List Text) (pipes : Text) :
    (shownWords ws pipes).countP (isFilter key value) = ws.countP (isFilter key value) := by
  rw [shownWords]
  split
  · next star =>
    have lacks : isFilter key value "*" = false := by
      rw [Bool.eq_false_iff]
      exact fun found => absurd (colon_mem_of_isFilter found) (by decide)
    rw [star.1]
    simpa using lacks
  · rfl

/-- Taking a filter out takes one match with one connective at most. The head stays balanced, and
the query is cut at the same pipe. -/
theorem remove_of_has (hkey : ∀ c ∈ key, Text.isNameChar c = true)
    (hvalue : ∀ c ∈ value, isBare c = true) (slash : '\\' ∉ (splitHead q).1)
    (balanced : IsBalanced (splitHead q).1) (found : has key value q = true) :
    IsBalanced (splitHead (remove key value q)).1 ∧
      (words (splitHead (remove key value q)).1).countP (isFilter key value) + 1 =
        (words (splitHead q).1).countP (isFilter key value) ∧
      (splitHead (remove key value q)).2 = (splitHead q).2.trim ∧
      ∃ before word after b a, words (splitHead q).1 = before ++ word :: after ∧
        (∀ w ∈ before, isFilter key value w = false) ∧ isFilter key value word = true ∧
        Closes before after b a ∧
        (words (splitHead (remove key value q)).1).map unbracketed =
          (shownWords (b ++ a) (splitHead q).2).map unbracketed := by
  have closed := quotesClosed_of_isBalanced balanced
  have clean := isRawWord_of_mem_words closed slash
  obtain ⟨d, spans, top⟩ := exists_spans_head slash closed
  obtain ⟨before, word, after, split, matched, absent⟩ := exists_first found
  obtain ⟨b, a, gap, taken⟩ := exists_takeOut before word after
  have rawWords : ∀ w ∈ words (splitHead q).1, '\\' ∉ w := fun w hw => (clean w hw).raw
  rw [split, List.forall_mem_append, List.forall_mem_cons] at clean
  obtain ⟨hbefore, hword, hafter⟩ := clean
  have bare := isBare_of_isFilter hkey hvalue hword.raw matched
  have hgap : ∀ w ∈ closeGap word b a, IsRawWord w :=
    isRawWord_closeGap (fun w hw => hbefore w (gap.subset.1 hw))
      fun w hw => hafter w (gap.subset.2 hw)
  have gapWord : ∀ w ∈ closeGap word b a, IsWord w := fun w hw => (hgap w hw).toIsWord
  have kept {F : Nat → Text → Prop} (hF : CountsBrackets F) (h : F 0 (splitHead q).1) :
      F 0 (closeGap word b a).flatten := by
    rw [hF.words_iff closed rawWords, split] at h
    exact hF.takeOut hbefore hword bare gap h
  have even := kept countsBrackets_closes balanced
  have spans' : Spans 0 (Text.join " " (closeGap word b a)) d := by
    have joined := (countsBrackets_spans d).join_iff (d := 0) hgap (g := []) (by simp)
    rw [List.append_nil] at joined
    exact joined.mpr (kept (countsBrackets_spans d) spans)
  have cut := splitHead_joinHead gapWord spans' top
  have shown := words_splitHead_joinHead gapWord spans' top
  rw [remove_eq split absent matched, taken]
  refine ⟨?_, ?_, ?_, before, word, after, b, a, split, absent, matched, gap, ?_⟩
  · rw [cut]
    exact (countsBrackets_closes.join_iff (forall_mem_shownWords isRawWord_star hgap _)
      (isBlank_gapBehind _)).mpr (closes_shownWords even _)
  · rw [shown, countP_shownWords, countP_isFilter_congr (map_closeGap even), countP_closes gap,
      split]
    simp [matched, Nat.add_assoc]
  · rw [cut]
  · rw [shown, map_shownWords unbracketed (map_closeGap even)]

/-- The bracket in front of the filter moves past the connective to the next word. -/
theorem remove_of_has_group :
    let q : Text := "(a:\"(\" OR  (!k:'v w' AND b:2))  k:x | limit 5 "
    remove "k" "v w" q = "(a:\"(\" OR (b:2)) k:x | limit 5" ∧
      IsBalanced (splitHead (remove "k" "v w" q)).1 ∧
      (words (splitHead (remove "k" "v w" q)).1).countP (isFilter "k" "v w") + 1 =
        (words (splitHead q).1).countP (isFilter "k" "v w") ∧
      (splitHead (remove "k" "v w" q)).2 = (splitHead q).2.trim := by
  intro q
  have name : ∀ c ∈ ("k" : Text), Text.isNameChar c = true := by simp [Text.isNameChar]
  have bare : ∀ c ∈ ("v w" : Text), isBare c = true := by simp [isBare, isOpener, isCloser]
  have left := remove_of_has (q := q) name bare (by decide) (by decide) (by decide)
  exact ⟨by decide, left.1, left.2.1, left.2.2.1⟩

end LabelEdit

end LogQuery
