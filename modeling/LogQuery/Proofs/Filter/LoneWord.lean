import LogQuery.Proofs.Filter.Nameless
import LogQuery.Proofs.Query.Words
import LogQuery.Proofs.Quoting.RoundTrip
import LogQuery.Proofs.Token.Unbroken

/-!
# Word filters that are read back

A word of the default field is written in quotes if it has to be, and otherwise as it is, with a
star behind it when longer words are meant as well. Whenever its text is read back as the same
filter, the text is a quote that lacks a mark, or it is a single word to the scan and no name of
anything, so that it is read as a word again whatever stands behind it, a bracket or a colon
apart.
-/

namespace LogQuery

open Lexer (Unbroken Breaks)
open Query (Calm OpensWord)

/-- Written and read again, the operations are the same. -/
def RoundTrips (ops : List Operation) : Prop :=
  Query.readOperations (writeOperations ops) "_msg" = ops

instance (ops : List Operation) : Decidable (RoundTrips ops) :=
  inferInstanceAs (Decidable (_ = _))

/-- A word filter of the default field that does not ignore case. -/
structure IsLoneWord (op : Operation) : Prop where
  id : op.id = .word
  field : op.text 0 = "_msg"
  sameCase : op.flag 2 = false

/-- A word filter writes the word in quotes. A variable and a star alone never are. -/
def InQuotes (w : Text) : Prop :=
  w = [] ∨ w ≠ ['*'] ∧ w.startsWith ['$'] = false ∧ Quoting.mustQuote w = true

instance (w : Text) : Decidable (InQuotes w) := inferInstanceAs (Decidable (_ ∨ _))

/-- The text of a word that is not written in quotes. -/
def bareText (w : Text) (starred : Bool) : Text := w ++ flagClause ['*'] starred

variable {w : Text} {starred : Bool} {rest : List Token}

/-! ### What is written -/

/-- What a word filter writes. -/
def wordText (w : Text) (starred : Bool) : Text :=
  (define {} .word).write (starredFilter w starred) []

theorem wordText_eq (w : Text) (starred : Bool) :
    wordText w starred =
      (if w.startsWith ['$'] || w == ['*'] then w else Scope.quoteOrEmpty {} w) ++
        flagClause ['*'] starred := rfl

theorem wordText_inQuotes (h : InQuotes w) (starred : Bool) :
    wordText w starred = Scope.quoteOrEmpty {} w ++ flagClause ['*'] starred := by
  rw [wordText_eq]
  rcases h with rfl | ⟨notStar, notVariable, -⟩
  · rfl
  · simp [notStar, notVariable]

theorem wordText_bare (h : ¬InQuotes w) (starred : Bool) :
    wordText w starred = bareText w starred := by
  simp only [InQuotes, not_or, not_and, Bool.not_eq_true] at h
  obtain ⟨nonempty, unquoted⟩ := h
  rw [wordText_eq, bareText]
  split
  · rfl
  · next other =>
    simp only [Bool.or_eq_true, beq_iff_eq, not_or, Bool.not_eq_true] at other
    simp [Scope.quoteOrEmpty, nonempty, Scope.quote, Quoting.quoteWith, unquoted other.2 other.1]

theorem writeOperations_starredFilter (w : Text) (starred : Bool) :
    writeOperations [starredFilter w starred] = (wordText w starred).trim :=
  writeOperations_filter rfl rfl

/-! ### Words that stand as they are -/

/-- A word without quotes that is not a star with a star behind it. -/
theorem nameless_bareText (bare : ¬InQuotes w) (tight : (bareText w starred).Tight)
    (star : w = ['*'] → starred = false) : Nameless (bareText w starred) := by
  simp only [InQuotes, not_or, not_and, Bool.not_eq_true] at bare
  obtain ⟨nonempty, unquoted⟩ := bare
  obtain ⟨c, k, rfl⟩ := List.exists_cons_of_ne_nil nonempty
  have text : bareText (c :: k) starred = c :: (k ++ flagClause ['*'] starred) := rfl
  have visible : Text.isBlank c = false := tight.first c rfl
  by_cases alone : c :: k = ['*']
  · have plain := star alone
    obtain ⟨rfl, rfl⟩ := List.cons.inj alone
    subst plain
    exact ⟨⟨'*', [], rfl, by decide, .inr ⟨rfl, rfl⟩⟩,
      keyword_ne_of_mem (c := '*') (by simp) (by simp [text])⟩
  · cases sigil : Text.startsWith (c :: k) ['$'] with
    | true =>
        obtain rfl : '$' = c := by simpa [Text.startsWith] using sigil
        exact ⟨⟨'$', _, text, by decide, .inl (by decide)⟩,
          keyword_ne_of_mem (c := '$') (by simp) (by simp [text])⟩
    | false =>
        have unreserved : Quoting.isReserved c = false := by
          rw [Bool.eq_false_iff]
          intro reserved
          exact Quoting.not_mem_of_isReserved (unquoted alone sigil) reserved
            (Text.mem_trim (by simp) visible)
        refine ⟨⟨c, _, text, visible, .inl unreserved⟩, ?_⟩
        cases starred with
        | true => exact keyword_ne_of_mem (c := '*') (by simp) (by simp [text, flagClause])
        | false =>
            have named := Text.keyword_ne_of_mustQuote (unquoted alone sigil)
            have whole : bareText (c :: k) false = c :: k := List.append_nil _
            rw [whole] at tight ⊢
            rwa [tight.trim_eq] at named

theorem isPlain_of_not_isReserved {c : Char} (visible : Text.isBlank c = false)
    (h : Quoting.isReserved c = false) : Lexer.isPlain c = true := by
  by_contra held
  simp only [Lexer.isPlain, Bool.not_eq_true', List.contains_eq_mem, decide_eq_false_iff_not,
    not_not, List.mem_cons, List.not_mem_nil, or_false] at held
  rcases held with rfl | rfl | rfl | rfl | rfl | rfl | rfl | rfl | rfl | rfl | rfl | rfl | rfl |
    rfl | rfl | rfl | rfl
  all_goals contradiction

/-- A word filter whose text is one word, read as a word with its star wherever it stands. -/
structure BareForm (w : Text) (starred : Bool) : Prop where
  nameless : Nameless (bareText w starred)
  tight : (bareText w starred).Tight
  unbroken : ∃ m, Unbroken (bareText w starred) m
  endsInStar : Filter.Word.endsInStar (bareText w starred) = starred
  opens : ∀ rest, Calm (bareText w starred) rest → OpensWord (.word (bareText w starred)) rest

namespace BareForm

/-- The word that stands for the filter is read as the filter, unless a star follows. -/
theorem run_word (h : BareForm w starred) (noStar : rest.head? ≠ some (.word ['*'])) :
    (readOperation {} .word none).run (.word (bareText w starred) :: rest) =
      (starredFilter w starred, rest) := by
  rw [Query.run_word _ noStar, h.endsInStar]
  cases starred with
  | false => simp [bareText, flagClause]
  | true => simp [bareText, flagClause]

/-- A space behind the word is escaped. -/
theorem unbroken_escaped (h : BareForm w false) (escape : w.endsInEscape = true) :
    Unbroken (bareText w false) .escaped := by
  obtain ⟨m, unbroken⟩ := h.unbroken
  have mode := unbroken.mode_eq
  have whole : bareText w false = w := List.append_nil w
  rw [whole, escape, if_pos rfl] at mode
  exact mode ▸ unbroken

end BareForm

/-! ### From the round trip -/

section Back

variable {expr : Text}

/-- A word filter that is read has all its parameters, and what holds of the values of the text
holds of its word. -/
theorem exists_word_of_read {K : Text → Prop} (empty : K []) {op : Operation}
    (h : Query.readOperations expr "_msg" = [op]) (word : op.id = .word)
    (offers : ∀ l ∈ Lexer.lexemes expr, ∀ v : Text, (∀ u, l.Holds u → v.Sublist u) →
      K v ∧ K v.dropLast) : ∃ field word anyCase starred, K word ∧
    op = { id := .word, params := [.text field, .text word, .flag anyCase, .flag starred] } := by
  have words : Query.WordsAre K (Query.readOperations expr "_msg") :=
    Query.wordsAre_read empty fun t ht v hv => by
      obtain ⟨l, hl, values⟩ := Lexer.exists_lexeme_of_mem_values ht hv
      exact offers l hl v values
  rw [h] at words
  exact words op (List.mem_singleton_self _) word

theorem word_of_read {K : Text → Prop} (empty : K [])
    (h : Query.readOperations expr "_msg" = [starredFilter w starred])
    (offers : ∀ l ∈ Lexer.lexemes expr, ∀ v : Text, (∀ u, l.Holds u → v.Sublist u) →
      K v ∧ K v.dropLast) : K w := by
  obtain ⟨_, word, _, _, holds, same⟩ := exists_word_of_read empty h rfl offers
  obtain rfl : w = word := congrArg (Operation.text · 1) same
  exact holds

/-- What is read back has the parameters of a word filter and no others. -/
theorem IsLoneWord.eq_starredFilter {op : Operation} (h : IsLoneWord op) (trip : RoundTrips [op]) :
    op = starredFilter (op.text 1) (op.flag 3) := by
  obtain ⟨field, word, anyCase, starred, -, rfl⟩ :=
    exists_word_of_read (K := fun _ => True) trivial trip h.id fun _ _ _ _ => ⟨trivial, trivial⟩
  obtain rfl : field = "_msg" := h.field
  obtain rfl : anyCase = false := h.sameCase
  rfl

/-- No word is read whose characters are not those of the text. -/
theorem sublist_of_read (h : Query.readOperations expr "_msg" = [starredFilter w starred]) :
    w.Sublist expr.trim := by
  refine word_of_read (K := (List.Sublist · expr.trim)) (List.nil_sublist _) h ?_
  intro l hl v values
  have sub := values _ (Lexer.Scan.keeps_start.run _ hl)
  exact ⟨sub, (List.dropLast_sublist v).trans sub⟩

theorem tight_bareText (nonempty : w ≠ [])
    (sub : w.Sublist (bareText w starred).trim) : (bareText w starred).Tight := by
  cases starred with
  | false =>
      have whole : bareText w false = w := List.append_nil w
      rw [whole] at sub ⊢
      have same : w.trim = w := (Text.sublist_trim w).antisymm sub
      exact { same ▸ Text.trimmed_trim w with nonempty }
  | true =>
      have text : bareText w true = w ++ ['*'] := rfl
      rw [text, Text.trim_concat w (by decide)] at sub
      obtain ⟨c, k, rfl⟩ := List.exists_cons_of_ne_nil nonempty
      have visible : Text.isBlank c = false := by
        by_contra blank
        have start : Text.trimStart (c :: k) = Text.trimStart k :=
          List.dropWhile_cons_of_pos (by simpa using blank)
        have short := (List.dropWhile_sublist (l := k) Text.isBlank).length_le
        rw [start] at sub
        have same := sub.eq_of_length_le (by simpa [Text.trimStart] using short)
        cases rest : Text.trimStart k with
        | nil =>
            rw [rest] at same
            exact blank (by rw [(List.cons.inj same).1]; decide)
        | cons d r =>
            rw [rest] at same
            have first := Text.head?_trimStart (t := k) (c := d) (by simp [rest])
            exact blank (by rw [(List.cons.inj same).1]; exact first)
      rw [text]
      exact .append_left (by simpa using visible) (.singleton (by decide))

/-- A break in the text is a character of the word, and the star behind it is none. -/
theorem lengths_of_breaks {k r : Text} {c : Char} (split : bareText w starred = k ++ c :: r)
    (breaks : Breaks k c) : k.length < w.length ∧ k.length + r.length ≤ w.length := by
  have count := congrArg List.length split
  cases starred with
  | false =>
      simp [bareText, flagClause] at count
      omega
  | true =>
      have more : r ≠ [] := by
        rintro rfl
        have ends : w ++ ['*'] = k ++ [c] := split
        have last := List.append_inj_right' ends rfl
        have broken := breaks.plain
        rw [← (List.cons.inj last).1] at broken
        exact absurd broken (by decide)
      have := List.length_pos_iff.mpr more
      simp [bareText, flagClause] at count
      omega

/-- A text from which the word is read with all its characters is not broken. -/
theorem unbroken_of_read (nonempty : w ≠ []) (tight : (bareText w starred).Tight)
    (nameless : Nameless (bareText w starred))
    (h : Query.readOperations (bareText w starred) "_msg" = [starredFilter w starred]) :
    ∃ m, Unbroken (bareText w starred) m := by
  rcases Lexer.unbroken_or_breaks (bareText w starred) with word | ⟨k, c, r, split, held, breaks⟩
  · exact word
  exfalso
  obtain ⟨d, k', first, visible, sign⟩ := nameless.first
  have plain : Lexer.isPlain d = true := by
    rcases sign with unreserved | ⟨rfl, -⟩
    · exact isPlain_of_not_isReserved visible unreserved
    · decide
  cases k with
  | nil =>
      obtain ⟨rfl, -⟩ := List.cons.inj (first.symm.trans split)
      rw [breaks.plain] at plain
      contradiction
  | cons e k =>
      obtain ⟨rfl, -⟩ := List.cons.inj (first.symm.trans split)
      obtain ⟨before, both⟩ := lengths_of_breaks split breaks
      rw [List.length_cons] at before both
      refine word_of_read (K := (· ≠ w)) nonempty.symm h (fun l hl v values => ?_) rfl
      rw [Lexer.lexemes, tight.trim_eq, split] at hl
      obtain ⟨u, holds, short⟩ := Lexer.exists_holds_of_breaks held plain visible breaks hl
      have shorter : v.length < w.length := by
        have := (values u holds).length_le
        omega
      have shorter' : v.dropLast.length < w.length := by
        rw [List.length_dropLast]
        omega
      exact ⟨fun same => shorter.ne (congrArg List.length same),
        fun same => shorter'.ne (congrArg List.length same)⟩

end Back

/-! ### Words in quotes -/

/-- The quote marks in a text. -/
def marks (t : Text) : Text := t.filter fun c => (QuoteMark.ofChar? c).isSome

theorem marks_addAll (r : Text) : marks (Escape.addAll '`' r) = marks r := by
  induction r with
  | nil => rfl
  | cons d r ih =>
      rw [Escape.addAll]
      split
      · next tick =>
        subst tick
        simpa [marks, QuoteMark.ofChar?] using ih
      · simp only [marks, List.filter_cons] at ih ⊢
        rw [ih]

theorem eq_of_cons_eq_concat {c : Char} {t : Text} (h : c :: t = t ++ [c]) : ∀ d ∈ t, d = c := by
  induction t with
  | nil => simp
  | cons d t ih =>
      obtain ⟨rfl, rest⟩ := List.cons.inj h
      simpa using ih rest

/-- A text with two kinds of marks has more of them, or in another order, than what stands behind
its first backtick and another backtick. -/
theorem not_marks_sublist {p r : Text} (split : w = p ++ '`' :: r) (double : '"' ∈ w) :
    ¬(marks w).Sublist (marks r ++ ['`']) := by
  intro sub
  have left : marks w = marks p ++ '`' :: marks r := by
    rw [split]
    simp [marks, QuoteMark.ofChar?]
  have mark : '"' ∈ marks w := List.mem_filter.mpr ⟨double, rfl⟩
  rw [left] at sub mark
  have none : marks p = [] := by simpa using sub.length_le
  rw [none, List.nil_append] at sub mark
  have ticks := eq_of_cons_eq_concat (sub.eq_of_length_le (by simp))
  rcases List.mem_cons.mp mark with now | later
  · contradiction
  · exact absurd (ticks _ later) (by decide)

/-- The quote that a reader sees in place of a text with all marks, and what stands behind it. -/
theorem exists_enclose_cut (all : ¬Quoting.LacksMark w) : ∃ p r, w = p ++ '`' :: r ∧ '`' ∉ p ∧
    Quoting.enclose .all w =
      Quoting.between .backtick (p ++ ['\\']) ++ (Escape.addAll '`' r ++ ['`']) := by
  have tick : '`' ∈ w := by
    by_contra absent
    exact all ⟨.backtick, absent⟩
  obtain ⟨p, r, split, first⟩ := List.eq_append_cons_of_mem tick
  refine ⟨p, r, split, first, ?_⟩
  rw [Quoting.enclose_of_not_lacksMark all, split]
  simp [Escape.add, Quoting.addAll_append first, Quoting.between, QuoteMark.char]

/-- A word read from a quote without backticks and more text has no backtick, or its marks are
among those of the text. -/
theorem not_mem_or_sublist_marks {p more : Text} (first : '`' ∉ p)
    (tight : (Quoting.between .backtick p ++ more).Tight)
    (h : Query.readOperations (Quoting.between .backtick p ++ more) "_msg" =
      [starredFilter w starred]) : '`' ∉ w ∨ (marks w).Sublist (marks more) := by
  refine word_of_read (K := fun v => '`' ∉ v ∨ (marks v).Sublist (marks more)) (by simp) h ?_
  intro l hl v values
  have quote : Lexer.Scan.start.feed (Quoting.between .backtick p) =
      ([.quote (Quoting.between .backtick p)], .start) :=
    Lexer.Scan.feed_between (Quoting.between_backtick first) []
  rw [Lexer.lexemes, tight.trim_eq, Lexer.Scan.run_append, quote] at hl
  rcases List.mem_cons.mp hl with rfl | hl
  · have sub := values _ (.quote (.refl _))
    have absent : '`' ∉ v := fun mem => first (sub.subset mem)
    exact ⟨.inl absent, .inl fun mem => absent (List.mem_of_mem_dropLast mem)⟩
  · have sub := values _ (Lexer.Scan.keeps_start.run more hl)
    exact ⟨.inr (sub.filter _), .inr (((List.dropLast_sublist v).trans sub).filter _)⟩

/-- A word that comes back from quotes lacks a mark: if not, the reader ends the quote at the first
backtick of the word, and behind it there are too few marks left for the word. -/
theorem lacksMark_of_roundTrips (nonempty : w ≠ []) (quoted : InQuotes w)
    (h : RoundTrips [starredFilter w starred]) : Quoting.LacksMark w := by
  obtain ⟨-, -, must⟩ := quoted.resolve_left nonempty
  by_contra all
  have double : '"' ∈ w := by
    by_contra absent
    exact all ⟨.double, absent⟩
  obtain ⟨p, r, split, first, cut⟩ := exists_enclose_cut all
  let more : Text := Escape.addAll '`' r ++ ['`'] ++ flagClause ['*'] starred
  have text : wordText w starred = Quoting.between .backtick (p ++ ['\\']) ++ more := by
    rw [wordText_inQuotes quoted, ← List.append_assoc, ← cut]
    simp [Scope.quoteOrEmpty, nonempty, Scope.quote, Quoting.quoteWith, must]
  have tight : (wordText w starred).Tight := by
    rw [text, ← List.append_assoc, ← cut]
    cases starred with
    | false => simpa [flagClause] using Lexer.tight_enclose w
    | true => exact (Lexer.tight_enclose w).append (.singleton (by decide))
  rw [RoundTrips, writeOperations_starredFilter, tight.trim_eq, text] at h
  have few := not_mem_or_sublist_marks (by simpa using first) (text ▸ tight) h
  have behind : marks more = marks r ++ ['`'] := by
    have star : marks (flagClause ['*'] starred) = [] := by cases starred <;> rfl
    rw [marks, List.filter_append, List.filter_append]
    change marks (Escape.addAll '`' r) ++ ['`'] ++ marks (flagClause ['*'] starred) = _
    rw [marks_addAll, star, List.append_nil]
  rw [behind] at few
  exact not_marks_sublist split double (few.resolve_left (by simp [split]))

theorem isQuotable_of_roundTrips (quoted : InQuotes w) (h : RoundTrips [starredFilter w starred]) :
    IsQuotable w := by
  by_cases nonempty : w = []
  · subst nonempty
    exact .empty
  · obtain ⟨notStar, notVariable, must⟩ := quoted.resolve_left nonempty
    exact .text must notStar notVariable (lacksMark_of_roundTrips nonempty quoted h)

/-- Two stars are one word, and it is read with its first star alone. -/
theorem starred_eq_of_roundTrips (h : RoundTrips [starredFilter ['*'] starred]) :
    starred = false := by
  cases starred with
  | false => rfl
  | true => exact absurd h (by decide)

theorem BareForm.of_roundTrips (bare : ¬InQuotes w) (h : RoundTrips [starredFilter w starred]) :
    BareForm w starred := by
  have nonempty : w ≠ [] := fun empty => bare (.inl empty)
  have star : w = ['*'] → starred = false := by
    rintro rfl
    exact starred_eq_of_roundTrips h
  rw [RoundTrips, writeOperations_starredFilter, wordText_bare bare] at h
  have tight : (bareText w starred).Tight := by
    have sub := sublist_of_read h
    rw [Text.trim_trim] at sub
    exact tight_bareText nonempty sub
  rw [tight.trim_eq] at h
  have nameless := nameless_bareText bare tight star
  obtain ⟨m, word⟩ := unbroken_of_read nonempty tight nameless h
  rw [readOperations_word nameless (word.tokenize_eq tight)] at h
  have opens := nameless.opensWord_or.resolve_right fun other =>
    other (starredFilter w starred) (h ▸ List.mem_singleton_self _) rfl
  refine ⟨nameless, tight, ⟨m, word⟩, ?_, opens⟩
  have noStar : ([] : List Token).head? ≠ some (.word ['*']) := by simp
  have read := Query.run_word (bareText w starred) noStar
  rw [Query.readSegment_of_opensWord (opens [] nameless.calm_nil) read] at h
  have flag := congrArg (Operation.flag · 3) (List.singleton_inj.mp h)
  exact flag

end LogQuery
