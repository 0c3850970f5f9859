import LogQuery.Proofs.Quoting.Enclosed
import LogQuery.Proofs.Token.Conservation

/-!
# Quoted texts and the values they stand for

Quoting a text and unquoting it gives the text back, whether it was put between marks or left
as it was: a text that is left as it was holds no marks. The reader of tokens agrees with this
for texts that lack one of the three marks. A text with all of them is written between
backticks with its own backticks escaped, and there the reader, which knows no escapes between
backticks, ends the quote at the first one of them.
-/

namespace LogQuery

namespace Quoting

variable {t : Text}

/-! ### Unquoting -/

/-- Reserved characters are in lower case. -/
theorem lowerChar_of_isReserved {c : Char} (h : isReserved c = true) :
    Text.lowerChar c = c ∧ c ≠ '\u0130' ∧ c ≠ '\u03a3' := by
  rw [isReserved, List.contains_iff_mem] at h
  apply List.forall_iff_forall_mem.mp ?_ c h
  decide

/-- A text without need of quotes holds nothing reserved between its ends. -/
theorem not_mem_of_isReserved (h : mustQuote t = false) {c : Char} (hc : isReserved c = true) :
    c ∉ t.trim := by
  intro mem
  obtain ⟨stable, dotted, sigma⟩ := lowerChar_of_isReserved hc
  simp only [mustQuote, Bool.or_eq_false_iff, List.any_eq_false] at h
  exact h.2 c (Text.mem_lowerAfter stable dotted sigma mem []) hc

/-- A text without need of quotes holds no marks. -/
theorem not_mem_of_mustQuote (h : mustQuote t = false) (m : QuoteMark) : m.char ∉ t := by
  intro ht
  have reserved : isReserved m.char = true := by cases m <;> rfl
  exact not_mem_of_isReserved h reserved (Text.mem_trim ht m.isBlank_char)

theorem unquoteWith_of_not_mem (h : ∀ m : QuoteMark, m.char ∉ t) (mode : EscapeMode) :
    unquoteWith t mode = t := by
  cases t with
  | nil => rfl
  | cons c cs =>
      have noMark : QuoteMark.ofChar? c = none := by
        rw [Option.eq_none_iff_forall_ne_some]
        intro m hm
        exact h m (by simp [QuoteMark.ofChar?_eq_some_iff.mp hm])
      simp [unquoteWith, noMark]

/-- Unquoting undoes quoting, forced or not and in both escape modes. -/
theorem unquoteWith_quoteWith (t : Text) (force : Option Bool) (mode : EscapeMode) :
    unquoteWith (quoteWith t force mode) mode = t := by
  rw [quoteWith]
  split
  · exact unquoteWith_enclose mode t
  · next bare =>
    have plain : mustQuote t = false := by
      simp only [Bool.or_eq_true, not_or, Bool.not_eq_true] at bare
      exact bare.1.1
    exact unquoteWith_of_not_mem (not_mem_of_mustQuote plain) mode

/-! ### Reading as one token -/

/-- Escaping changes nothing in front of the first escaped character. -/
theorem addAll_append {c : Char} {p : Text} (h : c ∉ p) (r : Text) :
    Escape.addAll c (p ++ c :: r) = p ++ '\\' :: c :: Escape.addAll c r := by
  induction p with
  | nil => exact if_pos rfl
  | cons d ds ih =>
      have other : d ≠ c := fun hd => h (by simp [hd])
      rw [List.cons_append, Escape.addAll, if_neg other, ih fun hd => h (List.mem_cons_of_mem _ hd)]
      rfl

theorem enclose_of_not_lacksMark (h : ¬LacksMark t) (mode : EscapeMode) :
    enclose mode t = between .backtick (Escape.add mode '`' t) := by
  have mem (m : QuoteMark) : m.char ∈ t := by
    by_contra absent
    exact h ⟨m, absent⟩
  have tick : '`' ∈ t := mem .backtick
  have double : '"' ∈ t := mem .double
  have single : '\'' ∈ t := mem .single
  simp [enclose, tick, double, single]

end Quoting

namespace Lexer

open Quoting

variable {t : Text}

theorem tokenize_enclose (h : LacksMark t) :
    tokenize (enclose .all t) = [.quote (enclose .all t)] :=
  (Spells.quote h).tokensWithin_eq

/-- A text that holds something visible other than number signs has a token. -/
theorem run_ne_nil {s : Scan} (h : s.mode.remains t ≠ []) : s.run t ≠ [] := by
  intro empty
  have account := s.visible_run t
  rw [empty] at account
  simp [h] at account

/-- With all three marks in the text, the reader ends the quote at the first backtick of the
text, and finds more behind it. -/
theorem exists_lexemes_enclose (h : ¬LacksMark t) :
    ∃ q l ls, lexemes (enclose .all t) = .quote q :: l :: ls := by
  have tick : '`' ∈ t := by
    by_contra absent
    exact h ⟨.backtick, absent⟩
  obtain ⟨p, r, split, first⟩ := List.eq_append_cons_of_mem tick
  -- the quote that the reader sees, and what stands behind it
  let q : Text := between .backtick (p ++ ['\\'])
  let rest : Text := Escape.addAll '`' r ++ ['`']
  have text : enclose .all t = q ++ rest := by
    rw [enclose_of_not_lacksMark h, split]
    simp [Escape.add, addAll_append first, q, rest, between, QuoteMark.char]
  have quote : Scan.start.feed q = ([.quote q], .start) :=
    Scan.feed_between (between_backtick (by simpa using first)) []
  have more : Scan.start.run rest ≠ [] := by
    apply run_ne_nil
    rw [Mode.remains_append, Mode.remains_cons, Mode.remnant_of_ne (by decide)]
    simp [Text.visible, Text.isBlank]
  obtain ⟨l, ls, found⟩ := List.exists_cons_of_ne_nil more
  refine ⟨q, l, ls, ?_⟩
  rw [lexemes, (tight_enclose t).trim_eq, text, Scan.run_append, quote, found]
  rfl

end Lexer

/-- A text put in quotes is read as one quote that stands for it exactly when it lacks one of
the three marks. -/
theorem tokenize_quoteWith_iff (t : Text) :
    (∃ q, tokenize (Quoting.quoteWith t (some true) .all) = [.quote q] ∧
      (Token.quote q).valueWith .all = t) ↔ Quoting.LacksMark t := by
  have forced : Quoting.quoteWith t (some true) .all = Quoting.enclose .all t := by
    simp [Quoting.quoteWith]
  rw [forced]
  constructor
  · rintro ⟨q, single, -⟩
    by_contra all
    obtain ⟨q', l, ls, more⟩ := Lexer.exists_lexemes_enclose all
    rw [tokenize, Lexer.maxNesting, Lexer.tokensWithin, more] at single
    simp at single
  · intro lacks
    exact ⟨_, Lexer.tokenize_enclose lacks, Quoting.unquoteWith_enclose .all t⟩

/-- The shortest text with all three marks falls into two quotes. -/
theorem tokenize_quote_of_all_marks :
    Quoting.quoteWith "`\"'" (some true) .all = ("`\\`\"'`" : Text) ∧
      tokenize "`\\`\"'`" = [.quote "`\\`", .quote "\"'`\""] :=
  ⟨rfl, rfl⟩

end LogQuery
