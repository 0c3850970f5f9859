import LogQuery.Proofs.Edit.Removal

/-!
# Taking an added filter back

A filter that is added stands behind the words of the head as a word of its own, with `AND` in
front of it, whatever its value holds. It is found there, and taking it out leaves the words that
were there before. They come back with single spaces between them.
-/

namespace LogQuery

open Place (Crosses)

namespace LabelEdit

variable {l : LabelTerm} {q t : Text}

/-! ### The text of a filter -/

/-- A filter that compares with one value: perhaps a negation, the key, a sign, and the value in
double quotes. -/
theorem exists_text_eq (stream : LabelTerm.isStreamKey l.key = false)
    (single : l.operator ∈ [.contains, .lacks, .equal, .notEqual]) :
    ∃ start sign : Text, start ∈ [[], ['!']] ∧ sign ∈ [[':'], [':', '='], [':', '!', '=']] ∧
      l.text = start ++ (l.key ++ (sign ++ Quoting.inDoubleQuotes l.value)) := by
  rw [LabelTerm.text, stream]
  simp only [List.mem_cons, List.not_mem_nil, or_false] at single
  rcases single with operator | operator | operator | operator
  · exact ⟨[], [':'], by simp, by simp, by simp [operator]⟩
  · exact ⟨['!'], [':'], by simp, by simp, by simp [operator]⟩
  · exact ⟨[], [':', '='], by simp, by simp, by simp [operator]⟩
  · exact ⟨[], [':', '!', '='], by simp, by simp, by simp [operator]⟩

section Text

variable (hkey : ∀ c ∈ l.key, Text.isNameChar c = true)
  (stream : LabelTerm.isStreamKey l.key = false)
  (single : l.operator ∈ [.contains, .lacks, .equal, .notEqual])

include hkey stream single

/-- In front of the quotes the filter is a plain word. -/
theorem exists_plain_text : ∃ start, IsPlainWord start ∧
    l.text = start ++ Quoting.inDoubleQuotes l.value := by
  obtain ⟨start, sign, hstart, hsign, text⟩ := exists_text_eq stream single
  refine ⟨start ++ (l.key ++ sign), ⟨?_, ?_⟩, by rw [text]; simp⟩
  · rintro nothing
    obtain ⟨-, -, rfl⟩ := by simpa using nothing
    simp at hsign
  · have negation : ∀ c ∈ start, isOrdinary c = true := by
      simp only [List.mem_cons, List.not_mem_nil, or_false] at hstart
      rcases hstart with rfl | rfl <;> simp [isOrdinary, Lexer.isInert, Text.isBlank]
    have comparison : ∀ c ∈ sign, isOrdinary c = true := by
      simp only [List.mem_cons, List.not_mem_nil, or_false] at hsign
      rcases hsign with rfl | rfl | rfl <;> simp [isOrdinary, Lexer.isInert, Text.isBlank]
    have name : ∀ c ∈ l.key, isOrdinary c = true := fun c hc => isOrdinary_of_isNameChar (hkey c hc)
    simpa only [List.forall_mem_append] using ⟨negation, name, comparison⟩

theorem isWord_text : IsWord l.text := by
  obtain ⟨start, plain, text⟩ := exists_plain_text hkey stream single
  rw [text]
  exact ⟨by simp [plain.nonempty], plain.isWord.crosses.append (.inDoubleQuotes rfl rfl rfl _)⟩

theorem spans_text (d : Nat) : Spans d l.text d := by
  obtain ⟨start, plain, text⟩ := exists_plain_text hkey stream single
  rw [text]
  exact (plain.spans d).append (.inDoubleQuotes rfl rfl rfl _)

theorem getLast?_text : l.text.getLast? = some '"' := by
  obtain ⟨start, -, text⟩ := exists_plain_text hkey stream single
  rw [text, Quoting.inDoubleQuotes_eq, Quoting.between]
  simp [QuoteMark.char, List.getLast?_cons]

theorem head?_text : l.text.head? ≠ some '(' := by
  obtain ⟨start, plain, text⟩ := exists_plain_text hkey stream single
  rw [text, List.head?_append_of_ne_nil _ plain.nonempty]
  exact fun opener => plain.not_mem (by decide) (List.mem_of_mem_head? opener)

/-- Negation, key and sign are taken off, and what is left is the value in its quotes. -/
theorem operand?_text : operand? l.key l.text = some (Quoting.inDoubleQuotes l.value) := by
  obtain ⟨start, sign, hstart, hsign, text⟩ := exists_text_eq stream single
  let rest := sign ++ Quoting.inDoubleQuotes l.value
  have whole : unbracketed l.text = l.text :=
    unbracketed_eq_self (head?_text hkey stream single) (by simp [getLast?_text hkey stream single])
  have first : (l.key ++ rest).dropWhile (fun c => c == '!' || c == '-') = l.key ++ rest := by
    simp only [List.mem_cons, List.not_mem_nil, or_false] at hsign
    cases hk : l.key with
    | nil => rcases hsign with rfl | rfl | rfl <;> rfl
    | cons c key =>
        have name := hkey c (by simp [hk])
        have bang := Text.ne_of_isNameChar name (d := '!') rfl
        have dash := Text.ne_of_isNameChar name (d := '-') rfl
        exact List.dropWhile_cons_of_neg (by simp [bang, dash])
  have bare : l.text.dropWhile (fun c => c == '!' || c == '-') = l.key ++ rest := by
    rw [text]
    simp only [List.mem_cons, List.not_mem_nil, or_false] at hstart
    rcases hstart with rfl | rfl
    · exact first
    · exact first
  have key : l.key.isPrefixOf? (l.key ++ rest) = some rest :=
    List.isPrefixOf?_eq_some_iff_append_eq.mpr rfl
  rw [operand?_eq, whole, innerOperand?, bare, key]
  simp only [List.mem_cons, List.not_mem_nil, or_false] at hsign
  rcases hsign with rfl | rfl | rfl
  · rfl
  · rfl
  · rfl

theorem isFilter_text : isFilter l.key l.value l.text = true := by
  rw [isFilter, operand?_text hkey stream single, Option.any_some, Quoting.unquote_inDoubleQuotes]
  simp

end Text

/-! ### Adding and taking back -/

/-- A filter that is added to a head with closed quotes stands at its end, behind `AND`, and the
query is cut at the same pipe. -/
theorem splitHead_add (word : IsWord l.text) (spans : ∀ d, Spans d l.text d)
    (filled : (splitHead q).1.allBlank = false) (slash : '\\' ∉ (splitHead q).1)
    (closed : QuotesClosed (splitHead q).1) :
    words (splitHead (add l q)).1 = words (splitHead q).1 ++ [("AND" : Text), l.text] ∧
      (splitHead (add l q)).2 = (splitHead q).2.trim := by
  obtain ⟨d, way, top⟩ := exists_spans_head slash closed
  have connective : IsPlainWord "AND" := by decide
  have space (d : Nat) : Spans d " " d := spans_blank (by simp [Text.isBlank]) d
  have whole : Spans 0 (head q ++ (" " ++ ("AND" ++ (" " ++ l.text)))) d :=
    (spans_trim way slash closed).append
      ((space d).append ((connective.spans d).append ((space d).append (spans d))))
  have added : add l q = head q ++ (" " ++ ("AND" ++ (" " ++ l.text))) ++ behind q := by
    have some : head q ≠ [] := (Text.tight_trim filled).nonempty
    rw [add_eq word.tight, if_neg some]
    simp
  obtain ⟨inside, kept⟩ : QuotesClosed (head q) ∧ words (head q) = words (splitHead q).1 :=
    quotesClosed_trim closed
  rw [added, splitHead_append_behind whole top]
  refine ⟨?_, rfl⟩
  have behindSpace (u : Text) : Breaks (" " ++ u) := fun c hc => by
    rw [← Option.some.inj hc]
    rfl
  have skip (u : Text) : words (" " ++ u) = words u := words_cons_blank (by decide) u
  calc words (head q ++ (" " ++ ("AND" ++ (" " ++ l.text))) ++ gapBehind (splitHead q).2)
      = words (head q) ++ words ("AND" ++ (" " ++ (l.text ++ gapBehind (splitHead q).2))) := by
        rw [List.append_assoc, List.append_assoc, words_closed_append inside (behindSpace _), skip,
          List.append_assoc, List.append_assoc]
    _ = words (head q) ++ ("AND" : Text) :: words (l.text ++ gapBehind (splitHead q).2) := by
        rw [words_append connective.isWord (behindSpace _), skip]
    _ = words (splitHead q).1 ++ [("AND" : Text), l.text] := by
        rw [words_append word (breaks_gapBehind _), words_gapBehind, kept]

/-- A filter that is added to a head with closed quotes is found, and taking it out gives back the
words of the head with single spaces between, and the pipes behind them. -/
theorem remove_add_eq_words (hkey : ∀ c ∈ l.key, Text.isNameChar c = true)
    (stream : LabelTerm.isStreamKey l.key = false)
    (single : l.operator ∈ [.contains, .lacks, .equal, .notEqual])
    (slash : '\\' ∉ q) (filled : (splitHead q).1.allBlank = false)
    (closed : QuotesClosed (splitHead q).1) (absent : has l.key l.value q = false) :
    has l.key l.value (add l q) = true ∧
      remove l.key l.value (add l q) =
        Text.join " " (words (splitHead q).1) ++ behind q := by
  have word := isWord_text hkey stream single
  have raw : '\\' ∉ (splitHead q).1 := fun hm => slash (mem_splitHead hm)
  have found := isFilter_text hkey stream single
  obtain ⟨added, pipes⟩ :=
    splitHead_add word (spans_text hkey stream single) filled raw closed
  have connective : isConnective "AND" = true := by decide
  have others : ∀ w ∈ words (splitHead q).1 ++ [("AND" : Text)], isFilter l.key l.value w = false := by
    have before : ∀ w ∈ words (splitHead q).1, isFilter l.key l.value w = false := by
      simpa [has] using absent
    intro w hw
    rcases List.mem_append.mp hw with old | new
    · exact before w old
    · rw [List.mem_singleton.mp new]
      exact isFilter_of_isConnective connective
  have split : words (splitHead (add l q)).1 =
      words (splitHead q).1 ++ [("AND" : Text)] ++ l.text :: [] := by rw [added]; simp
  have even : openings l.text = closings l.text := by
    rw [openings_eq_zero (head?_text hkey stream single),
      closings_eq_zero (by simp [getLast?_text hkey stream single])]
  have taken : takeOut (words (splitHead q).1 ++ [("AND" : Text)]) l.text [] = words (splitHead q).1 := by
    rw [takeOut_of_even even, if_pos (by simpa using connective), dropLastConnective_concat,
      if_pos connective, List.append_nil]
  have some : words (splitHead q).1 ≠ [] := fun nothing => by
    rw [allBlank_of_words_eq_nil closed nothing] at filled
    contradiction
  refine ⟨by simp [has, added, found], ?_⟩
  rw [remove_eq split others found, taken, joinHead_join (isWord_of_mem_words closed),
    behind_eq_of_trim pipes, shownWords_of_ne_nil some]

/-- A bar in quotes, a group, an open bracket of another kind in quotes, and pipes; the value has
quotes, a backslash, a bar and a bracket. -/
theorem remove_add_eq_words_quoted :
    let q : Text := "  a:\"x | y\"   OR (b  c:'[')\t|  limit 5 "
    let l : LabelTerm := { key := "k.1", value := "say \"\\ | (", operator := .notEqual }
    add l q = "a:\"x | y\"   OR (b  c:'[') AND k.1:!=\"say \\\"\\\\ | (\" |  limit 5" ∧
      has "k.1" l.value (add l q) = true ∧
      remove "k.1" l.value (add l q) = "a:\"x | y\" OR (b c:'[') |  limit 5" := by
  intro q l
  have name : ∀ c ∈ l.key, Text.isNameChar c = true := by simp [l, Text.isNameChar]
  have undone := remove_add_eq_words (q := q) name (by decide) (by decide) (by decide)
    (by decide) (by decide) (by decide)
  exact ⟨by decide, undone.1, undone.2.trans (by decide)⟩

end LabelEdit

end LogQuery
