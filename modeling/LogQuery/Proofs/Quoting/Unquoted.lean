import LogQuery.Proofs.Quoting.RoundTrip

/-!
# Texts that are left without quotes

A text is put in quotes for the sake of the reader, so the characters that are reserved ought to
be those that mean something to the reader. They are, but for the two line breaks, which end a
word like a space does. What is left without quotes is therefore read as the words between its
line breaks, and these lose the white space at their ends: neither the breaks nor that white
space come back.
-/

namespace LogQuery

namespace Quoting

open Lexer (Scan)

/-- A line feed or a carriage return. -/
def isLineBreak (c : Char) : Bool := c == '\n' || c == '\r'

variable {t : Text} {c : Char}

/-! ### Reserved characters -/

/-- What is not plain to the reader is reserved, line breaks apart. -/
theorem isReserved_or_isLineBreak (h : Lexer.isPlain c = false) :
    isReserved c = true ∨ isLineBreak c = true := by
  rw [Lexer.isPlain, Bool.not_eq_false', List.contains_iff_mem] at h
  apply List.forall_iff_forall_mem.mp ?_ c h
  decide

theorem isPlain_of_mustQuote (h : mustQuote t = false) (hc : c ∈ t.trim)
    (unbroken : isLineBreak c = false) : Lexer.isPlain c = true := by
  rw [← Bool.not_eq_false]
  intro special
  rcases isReserved_or_isLineBreak special with reserved | broken
  · exact not_mem_of_isReserved h reserved hc
  · rw [unbroken] at broken
    contradiction

/-! ### Words between line breaks -/

/-- The words between the line breaks of a text, without white space at their ends. -/
def lineWords (t : Text) : List Text :=
  ((t.splitOnP isLineBreak).map Text.trim).filter fun w => !w.isEmpty

theorem lineWords_append_break (t : Text) (hc : isLineBreak c = true) (u : Text) :
    lineWords (t ++ c :: u) = lineWords t ++ lineWords u := by
  rw [lineWords, List.splitOnP_append_cons t u hc, List.map_append, List.filter_append]
  rfl

theorem lineWords_unbroken (h : ∀ c ∈ t, isLineBreak c = false) :
    lineWords t = if t.trim.isEmpty then [] else [t.trim] := by
  rw [lineWords, List.splitOnP_eq_singleton h]
  cases empty : t.trim.isEmpty <;> simp [empty]

/-- A line has no break in it. -/
theorem isLineBreak_of_mem_splitOnP {w : Text} (h : w ∈ t.splitOnP isLineBreak) :
    ∀ c ∈ w, isLineBreak c = false := by
  induction t generalizing w with
  | nil =>
      rw [List.splitOnP_nil, List.mem_singleton] at h
      simp [h]
  | cons d ds ih =>
      rw [List.splitOnP_cons_eq_if_modifyHead] at h
      split at h
      · rcases List.mem_cons.mp h with rfl | h
        · simp
        · exact ih h
      · next unbroken =>
        obtain ⟨line, lines, split⟩ := List.exists_cons_of_ne_nil
          (List.splitOnP_ne_nil isLineBreak ds)
        rw [split, List.modifyHead_cons] at h
        rw [split] at ih
        rcases List.mem_cons.mp h with rfl | h
        · intro c hc
          rcases List.mem_cons.mp hc with rfl | hc
          · simpa using unbroken
          · exact ih (by simp) c hc
        · exact ih (by simp [h])

theorem mem_lineWords {w : Text} (h : w ∈ lineWords t) :
    w.Tight ∧ ∀ c ∈ w, isLineBreak c = false := by
  obtain ⟨mem, nonempty⟩ := List.mem_filter.mp h
  obtain ⟨line, hline, rfl⟩ := List.mem_map.mp mem
  constructor
  · exact { Text.trimmed_trim line with nonempty := by simpa using nonempty }
  · intro c hc
    exact isLineBreak_of_mem_splitOnP hline c (Text.mem_of_mem_trim hc)

/-! ### Reading -/

theorem step_lineBreak (held : List Char) (hc : isLineBreak c = true) :
    Scan.step ⟨.plain, held⟩ c = (Scan.word ⟨.plain, held⟩, .start) := by
  rw [isLineBreak, Bool.or_eq_true, beq_iff_eq, beq_iff_eq] at hc
  rcases hc with rfl | rfl <;>
    simp [Scan.step, Scan.stepPlain, QuoteMark.ofChar?, isOpener, Lexer.isBreak, Char.isWhitespace]

theorem word_eq_lineWords {held : List Char} (h : ∀ c ∈ held, isLineBreak c = false) :
    Scan.word ⟨.plain, held⟩ = (lineWords held.reverse).map .word := by
  rw [lineWords_unbroken (by simpa using h), Scan.word, Scan.buffer]
  cases (Text.trim held.reverse).isEmpty <;> rfl

/-- From a word that is open, a scan over plain characters and line breaks gives the words
between the breaks. -/
theorem run_eq_lineWords {held : List Char} (hheld : ∀ c ∈ held, isLineBreak c = false)
    (ht : ∀ c ∈ t, isLineBreak c = false → Lexer.isPlain c = true) :
    Scan.run ⟨.plain, held⟩ t = (lineWords (held.reverse ++ t)).map .word := by
  induction t generalizing held with
  | nil =>
      rw [List.append_nil]
      exact word_eq_lineWords hheld
  | cons c cs ih =>
      have rest : ∀ d ∈ cs, isLineBreak d = false → Lexer.isPlain d = true := fun d hd =>
        ht d (by simp [hd])
      rw [Scan.run]
      cases broken : isLineBreak c with
      | true =>
          have next : Scan.run ⟨.plain, []⟩ cs = (lineWords cs).map .word := ih (by simp) rest
          rw [step_lineBreak held broken, Scan.start, next, word_eq_lineWords hheld,
            lineWords_append_break _ broken, List.map_append]
      | false =>
          have next : Scan.run ⟨.plain, c :: held⟩ cs =
              (lineWords ((c :: held).reverse ++ cs)).map .word := by
            apply ih ?_ rest
            intro d hd
            rcases List.mem_cons.mp hd with rfl | hd
            · exact broken
            · exact hheld d hd
          rw [Scan.step_plain (ht c (by simp) broken), List.nil_append, next]
          simp

/-- What a text that needs no quotes is read as. -/
theorem tokenize_of_mustQuote (h : mustQuote t = false) :
    tokenize t = (lineWords t.trim).map .word := by
  have lexemes : Lexer.lexemes t = (lineWords t.trim).map .word :=
    run_eq_lineWords (by simp) fun c hc => isPlain_of_mustQuote h hc
  rw [tokenize, Lexer.maxNesting, Lexer.tokensWithin, lexemes, List.map_map]
  rfl

/-! ### Reading back -/

/-- The text is read as one token, which is a value and stands for `t`. -/
def ReadsBack (text t : Text) : Prop := ∃ k, tokenize text = [k] ∧ k.isValue = true ∧ k.value = t

theorem readsBack_enclose_iff (t : Text) : ReadsBack (enclose .all t) t ↔ LacksMark t := by
  constructor
  · rintro ⟨k, single, -⟩
    by_contra all
    obtain ⟨q, l, ls, more⟩ := Lexer.exists_lexemes_enclose all
    rw [tokenize, Lexer.maxNesting, Lexer.tokensWithin, more] at single
    simp at single
  · intro lacks
    exact ⟨_, Lexer.tokenize_enclose lacks, rfl, unquoteWith_enclose .all t⟩

theorem readsBack_unquoted_iff (h : mustQuote t = false) :
    ReadsBack t t ↔ t.Tight ∧ ∀ c ∈ t, isLineBreak c = false := by
  constructor
  · rintro ⟨k, single, -, value⟩
    rw [tokenize_of_mustQuote h] at single
    obtain ⟨w, words, rfl⟩ := List.map_eq_singleton_iff.mp single
    have same : w = t := value
    apply mem_lineWords (t := t.trim)
    simp [words, same]
  · rintro ⟨tight, unbroken⟩
    refine ⟨.word t, ?_, rfl, rfl⟩
    rw [tokenize_of_mustQuote h, tight.trim_eq, lineWords_unbroken unbroken, tight.trim_eq]
    simp [tight.nonempty]

end Quoting

open Quoting (LacksMark isLineBreak mustQuote)

/-- A text is read back as one value exactly when quotes are put around it and it lacks one of
the marks, or when none are and it has neither line breaks nor white space at its ends. -/
theorem tokenize_quote_iff (t : Text) :
    (∃ k, tokenize (Quoting.quote t) = [k] ∧ k.isValue = true ∧ k.value = t) ↔
      if mustQuote t then LacksMark t else t.Tight ∧ ∀ c ∈ t, isLineBreak c = false := by
  cases quoted : mustQuote t with
  | true =>
      have enclosed : Quoting.quote t = Quoting.enclose .all t := by
        simp [Quoting.quote, Quoting.quoteWith, quoted]
      rw [enclosed, if_pos rfl]
      exact Quoting.readsBack_enclose_iff t
  | false =>
      have bare : Quoting.quote t = t := by
        simp [Quoting.quote, Quoting.quoteWith, quoted]
      rw [bare, if_neg (by simp)]
      exact Quoting.readsBack_unquoted_iff quoted

/-- A line break between two letters makes two words of a text that is left without quotes. -/
theorem tokenize_quote_lineBreak :
    let t : Text := "a\nb"
    (t ≠ [] ∧ ∀ m : QuoteMark, m.char ∉ t) ∧ Quoting.quote t = t ∧
      tokenize (Quoting.quote t) = [.word "a", .word "b"] := by
  refine ⟨⟨by decide, ?_⟩, by decide, rfl⟩
  intro m
  cases m <;> decide

end LogQuery
