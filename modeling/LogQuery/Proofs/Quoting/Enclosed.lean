import LogQuery.Proofs.Token.Spelling
import LogQuery.Scope

/-!
# Quoted text

Removing marks and escapes gives back any text that was put between marks. Reading it back as
one token needs more: between backticks nothing is escaped for the scan, so the text must lack
one of the three marks. Then the mark that is chosen does not stand inside.
-/

namespace LogQuery

namespace Escape

variable {c d : Char} {t : Text}

theorem add_cons_of_ne (mode : EscapeMode) (h : d ≠ c) (t : Text) :
    add mode c (d :: t) = d :: add mode c t := by
  cases mode with
  | all => exact if_neg h
  | firstOccurrence => exact if_neg h

/-- What starts an escaped text is never the escaped character, the backslash apart. -/
theorem head?_add_ne (mode : EscapeMode) (hc : c ≠ '\\') (t : Text) :
    (add mode c t).head? ≠ some c := by
  cases t with
  | nil => cases mode <;> simp [add, addAll, addFirst]
  | cons d r =>
      by_cases hd : d = c
      · subst hd
        cases mode <;> simpa [add, addAll, addFirst] using hc.symm
      · rw [add_cons_of_ne mode hd]
        simpa using hd

theorem remove_cons_of_head? (mode : EscapeMode) {b : Char} (h : b = '\\' → t.head? ≠ some c) :
    remove mode c (b :: t) = b :: remove mode c t := by
  cases t with
  | nil => cases mode <;> rfl
  | cons d r =>
      have plain : ¬(b = '\\' ∧ d = c) := by
        rintro ⟨rfl, rfl⟩
        exact h rfl rfl
      cases mode with
      | all => exact if_neg plain
      | firstOccurrence => exact if_neg plain

/-- Taking the escapes away undoes putting them in, at every occurrence or at the first. -/
theorem remove_add (mode : EscapeMode) (c : Char) (t : Text) :
    remove mode c (add mode c t) = t := by
  induction t with
  | nil => cases mode <;> rfl
  | cons d r ih =>
      by_cases hd : d = c
      · subst hd
        cases mode with
        | all =>
            have rest : removeAll d (addAll d r) = r := ih
            simp [add, remove, addAll, removeAll, rest]
        | firstOccurrence => simp [add, remove, addFirst, removeFirst]
      · rw [add_cons_of_ne mode hd, remove_cons_of_head? mode, ih]
        rintro rfl
        exact head?_add_ne mode (Ne.symm hd) r

theorem remove_of_not_mem (mode : EscapeMode) (h : c ∉ t) : remove mode c t = t := by
  induction t with
  | nil => cases mode <;> rfl
  | cons b r ih =>
      rw [remove_cons_of_head? mode, ih fun hr => h (List.mem_cons_of_mem _ hr)]
      intro _ hr
      exact h (List.mem_cons_of_mem _ (List.mem_of_mem_head? hr))

theorem not_mem_add (mode : EscapeMode) (hd : d ≠ '\\') (h : d ∉ t) : d ∉ add mode c t := by
  induction t with
  | nil => cases mode <;> simp [add, addAll, addFirst]
  | cons b r ih =>
      have rest := ih fun hr => h (List.mem_cons_of_mem _ hr)
      have first : d ≠ b := fun hb => h (by simp [hb])
      by_cases hb : b = c
      · subst hb
        cases mode with
        | all => simpa [add, addAll, hd, first] using rest
        | firstOccurrence =>
            have tail : d ∉ r := fun hr => h (List.mem_cons_of_mem _ hr)
            simp [add, addFirst, hd, first, tail]
      · rw [add_cons_of_ne mode hb]
        simp [first, rest]

/-- Escaping puts in nothing but backslashes. -/
theorem countP_add (mode : EscapeMode) {p : Char → Bool} (hp : p '\\' = false) (c : Char)
    (t : Text) : (add mode c t).countP p = t.countP p := by
  cases mode with
  | all =>
      change (addAll c t).countP p = t.countP p
      fun_induction addAll c t with
      | case1 => rfl
      | case2 r ih => simp [List.countP_cons, hp, ih]
      | case3 d r other ih => simp [List.countP_cons, ih]
  | firstOccurrence =>
      change (addFirst c t).countP p = t.countP p
      fun_induction addFirst c t with
      | case1 => rfl
      | case2 r => simp [List.countP_cons, hp]
      | case3 d r other ih => simp [List.countP_cons, ih]

/-- Removing escapes takes away nothing but backslashes. -/
theorem countP_remove (mode : EscapeMode) {p : Char → Bool} (hp : p '\\' = false) (c : Char)
    (t : Text) : (remove mode c t).countP p = t.countP p := by
  cases mode with
  | all =>
      change (removeAll c t).countP p = t.countP p
      fun_induction removeAll c t with
      | case1 => rfl
      | case2 d => rfl
      | case3 b d r escaped ih =>
          obtain ⟨rfl, rfl⟩ := escaped
          simp [List.countP_cons, hp, ih]
      | case4 b d r plain ih => rw [List.countP_cons, ih, ← List.countP_cons]
  | firstOccurrence =>
      change (removeFirst c t).countP p = t.countP p
      fun_induction removeFirst c t with
      | case1 => rfl
      | case2 d => rfl
      | case3 b d r escaped =>
          obtain ⟨rfl, rfl⟩ := escaped
          simp [List.countP_cons, hp]
      | case4 b d r plain ih => rw [List.countP_cons, ih, ← List.countP_cons]

theorem remove_sublist (mode : EscapeMode) (c : Char) (t : Text) :
    List.Sublist (remove mode c t) t := by
  cases mode with
  | all =>
      change List.Sublist (removeAll c t) t
      fun_induction removeAll c t with
      | case1 => exact .slnil
      | case2 d => exact .refl _
      | case3 b d r escaped ih =>
          obtain ⟨rfl, rfl⟩ := escaped
          exact .cons _ (.cons_cons _ ih)
      | case4 b d r plain ih => exact .cons_cons _ ih
  | firstOccurrence =>
      change List.Sublist (removeFirst c t) t
      fun_induction removeFirst c t with
      | case1 => exact .slnil
      | case2 d => exact .refl _
      | case3 b d r escaped =>
          obtain ⟨rfl, rfl⟩ := escaped
          exact .cons _ (.refl _)
      | case4 b d r plain ih => exact .cons_cons _ ih

end Escape

namespace Quoting

open Lexer

/-- One of the quote marks does not occur in the text. -/
def LacksMark (t : Text) : Prop := ∃ m : QuoteMark, m.char ∉ t

theorem unquoteWith_between (m : QuoteMark) (t : Text) (mode : EscapeMode) :
    unquoteWith (between m t) mode = unescape mode m t := by
  have last : (m.char :: (t ++ [m.char])).getLast? = some m.char := by
    rw [← List.cons_append, List.getLast?_concat]
  simp only [unquoteWith, between, QuoteMark.ofChar?_char, last, BEq.rfl, if_true,
    List.dropLast_concat]

theorem unescape_sublist (mode : EscapeMode) (m : QuoteMark) (t : Text) :
    List.Sublist (unescape mode m t) t := by
  cases m with
  | backtick => exact Escape.remove_sublist mode _ t
  | double => exact (Escape.remove_sublist mode _ _).trans (Escape.remove_sublist mode _ t)
  | single => exact (Escape.remove_sublist mode _ _).trans (Escape.remove_sublist mode _ t)

theorem countP_unescape (mode : EscapeMode) {p : Char → Bool} (hp : p '\\' = false)
    (m : QuoteMark) (t : Text) : (unescape mode m t).countP p = t.countP p := by
  cases m with
  | backtick => exact Escape.countP_remove mode hp _ t
  | double => exact (Escape.countP_remove mode hp _ _).trans (Escape.countP_remove mode hp _ t)
  | single => exact (Escape.countP_remove mode hp _ _).trans (Escape.countP_remove mode hp _ t)

theorem unescape_add (mode : EscapeMode) {m : QuoteMark} (hm : m ≠ .backtick) {t : Text}
    (ht : m.char ∉ t) : unescape mode m (Escape.add mode '\\' t) = t := by
  have slash : m.char ≠ '\\' := by cases m <;> decide
  have plain : Escape.remove mode m.char (Escape.add mode '\\' t) = Escape.add mode '\\' t :=
    Escape.remove_of_not_mem mode (Escape.not_mem_add mode slash ht)
  have both : unescape mode m (Escape.add mode '\\' t) =
      Escape.remove mode '\\' (Escape.remove mode m.char (Escape.add mode '\\' t)) := by
    cases m with
    | backtick => exact absurd rfl hm
    | double => rfl
    | single => rfl
  rw [both, plain, Escape.remove_add]

/-- Removing the marks and escapes gives back any text put between marks. -/
theorem unquoteWith_enclose (mode : EscapeMode) (t : Text) :
    unquoteWith (enclose mode t) mode = t := by
  unfold enclose
  split
  · next h =>
    rw [unquoteWith_between]
    exact Escape.remove_of_not_mem mode (by simpa using h)
  · split
    · next h =>
      have absent : QuoteMark.double.char ∉ t := by simpa [QuoteMark.char] using h
      rw [unquoteWith_between, unescape_add mode (by decide) absent]
    · split
      · next h =>
        have absent : QuoteMark.single.char ∉ t := by simpa [QuoteMark.char] using h
        rw [unquoteWith_between, unescape_add mode (by decide) absent]
      · rw [unquoteWith_between]
        exact Escape.remove_add mode '`' t

theorem tight_between (m : QuoteMark) (t : Text) : (between m t).Tight := by
  have mark : Text.isBlank m.char = false := by cases m <;> decide
  have one : Text.Tight [m.char] := .singleton mark
  exact one.around t one

/-! ### Scanning between marks -/

/-- A scan between two marks `m` passes over the text and stays there. -/
def Between (m : QuoteMark) (t : Text) : Prop :=
  ∀ held, Scan.feed ⟨.quoted m, held⟩ t = ([], ⟨.quoted m, t.reverse ++ held⟩)

theorem between_backtick {t : Text} (h : '`' ∉ t) : Between .backtick t := by
  induction t with
  | nil => exact fun held => rfl
  | cons c cs ih =>
      intro held
      have other : c ≠ '`' := fun hc => h (by simp [hc])
      have step : Scan.step ⟨.quoted .backtick, held⟩ c = ([], ⟨.quoted .backtick, c :: held⟩) := by
        simp [Scan.step, Scan.stepQuoted, Scan.hold, QuoteMark.char, other]
      rw [Scan.feed_cons, step, ih fun hr => h (List.mem_cons_of_mem _ hr)]
      simp

theorem between_addAll {m : QuoteMark} (hm : m ≠ .backtick) {t : Text} (h : m.char ∉ t) :
    Between m (Escape.addAll '\\' t) := by
  have slash : m.char ≠ '\\' := by cases m <;> decide
  induction t with
  | nil => exact fun held => rfl
  | cons c cs ih =>
      intro held
      have rest := ih fun hr => h (List.mem_cons_of_mem _ hr)
      have other : c ≠ m.char := fun hc => h (by simp [hc])
      rw [Escape.addAll]
      split
      · -- a backslash and the one behind it are held as a pair
        have first : Scan.step ⟨.quoted m, held⟩ '\\' = ([], ⟨.quotedEscaped m, '\\' :: held⟩) := by
          simp [Scan.step, Scan.stepQuoted, Scan.hold, hm, slash.symm]
        have second : Scan.step ⟨.quotedEscaped m, '\\' :: held⟩ '\\' =
            ([], ⟨.quoted m, '\\' :: '\\' :: held⟩) := rfl
        rw [Scan.feed_cons, first, Scan.feed_cons, second, rest]
        simp
      · next hc =>
        have step : Scan.step ⟨.quoted m, held⟩ c = ([], ⟨.quoted m, c :: held⟩) := by
          simp [Scan.step, Scan.stepQuoted, Scan.hold, other, hc]
        rw [Scan.feed_cons, step, rest]
        simp

/-- A text that lacks a mark is put between backticks as it is, or between two other marks with
its backslashes doubled. -/
theorem enclose_cases {t : Text} (h : LacksMark t) :
    '`' ∉ t ∧ enclose .all t = between .backtick t ∨
      '`' ∈ t ∧ ∃ m, m ≠ .backtick ∧ m.char ∉ t ∧
        enclose .all t = between m (Escape.addAll '\\' t) := by
  unfold enclose
  split
  · next tick => exact .inl ⟨by simpa using tick, rfl⟩
  · next tick =>
    refine .inr ⟨by simpa using tick, ?_⟩
    split
    · next double => exact ⟨.double, by decide, by simpa [QuoteMark.char] using double, rfl⟩
    · next double =>
      split
      · next single => exact ⟨.single, by decide, by simpa [QuoteMark.char] using single, rfl⟩
      · next single =>
        obtain ⟨m, hm⟩ := h
        cases m with
        | backtick => exact absurd hm (by simpa [QuoteMark.char] using tick)
        | double => exact absurd hm (by simpa [QuoteMark.char] using double)
        | single => exact absurd hm (by simpa [QuoteMark.char] using single)

theorem exists_between {t : Text} (h : LacksMark t) :
    ∃ m u, enclose .all t = between m u ∧ Between m u := by
  rcases enclose_cases h with ⟨tick, enclosed⟩ | ⟨-, m, hm, absent, enclosed⟩
  · exact ⟨.backtick, t, enclosed, between_backtick tick⟩
  · exact ⟨m, _, enclosed, between_addAll hm absent⟩

end Quoting

namespace Lexer

open Quoting

variable {levels : Nat} {t w : Text}

/-- A quote ends the word before it and is a token of its own. -/
theorem Scan.feed_between {m : QuoteMark} (h : Between m t) (held : List Char) :
    feed ⟨.plain, held⟩ (between m t) =
      (word ⟨.plain, held⟩ ++ [.quote (between m t)], start) := by
  have opening : step ⟨.plain, held⟩ m.char = (word ⟨.plain, held⟩, ⟨.quoted m, [m.char]⟩) := by
    simp [step, stepPlain]
  have closing (held : List Char) : step ⟨.quoted m, held⟩ m.char =
      ([.quote (m.char :: held).reverse], start) := by
    simp [step, stepQuoted, hold, buffer]
  rw [between, feed_cons, opening, feed_append, h, feed_cons, closing]
  simp

/-- A text that starts with a quote has it as its first token, whatever follows. -/
theorem head?_tokensWithin_between {m : QuoteMark} (h : Between m t) (u : Text) :
    (tokensWithin (levels + 1) (between m t ++ u)).head? = some (.quote (between m t)) := by
  obtain ⟨v, trimmed⟩ := (tight_between m t).prefix_trim (List.prefix_append (between m t) u)
  have nothing : Scan.word ⟨.plain, []⟩ = [] := rfl
  rw [tokensWithin, lexemes, ← trimmed, Scan.run_append, Scan.start, Scan.feed_between h, nothing]
  rfl

theorem Lexes.quote (h : LacksMark t) :
    Lexes levels (enclose .all t) [.quote (enclose .all t)] := by
  obtain ⟨m, u, enclosed, between⟩ := exists_between h
  rw [enclosed]
  exact .of_feed (Scan.feed_between between [])

/-- A quote directly behind a word. -/
theorem Lexes.word_quote (hw : w.Tight) (hp : ∀ c ∈ w, isPlain c = true) (h : LacksMark t) :
    Lexes levels (w ++ enclose .all t) [.word w, .quote (enclose .all t)] := by
  obtain ⟨m, u, enclosed, inside⟩ := exists_between h
  have feed : Scan.start.feed (w ++ between m u) = ([.word w, .quote (between m u)], .start) := by
    rw [Scan.feed_append, Scan.start, Scan.feed_plain hp, List.append_nil,
      Scan.feed_between inside, Scan.word_tight hw]
    rfl
  rw [enclosed]
  exact .of_feed feed

theorem tight_enclose (t : Text) : (enclose .all t).Tight := by
  unfold enclose
  split
  · exact tight_between _ _
  · split
    · exact tight_between _ _
    · split
      · exact tight_between _ _
      · exact tight_between _ _

theorem Spells.quote (h : LacksMark t) :
    Spells levels (enclose .all t) [.quote (enclose .all t)] :=
  .of_lexes (tight_enclose t) (.quote h)

end Lexer

open Lexer (Lexes Spells)

/-! ### Quoted values -/

/-- A text in quotes, and the value between its marks. -/
structure Quotes (q v : Text) : Prop where
  tight : q.Tight
  lexes : Lexes 63 q [.quote q]
  value : Quoting.unquote q = v

namespace Quotes

variable {q v : Text} {s : Scope}

theorem enclose (h : Quoting.LacksMark v) : Quotes (Quoting.enclose .all v) v where
  tight := Lexer.tight_enclose v
  lexes := .quote h
  value := Quoting.unquoteWith_enclose .all v

/-- The pair of double quotes that stands for the empty text. -/
theorem empty : Quotes ['"', '"'] [] where
  tight := .of_all (by simp) (by simp [Text.isBlank])
  lexes := ⟨rfl, rfl⟩
  value := rfl

theorem spells (h : Quotes q v) : Spells 63 q [.quote q] := .of_lexes h.tight h.lexes

/-- A quote is never a separator. -/
theorem ne_separator (h : Quotes q v) {c : Char} (hc : c ∈ [',', '|', '=', '!']) : q ≠ [c] := by
  rintro rfl
  have := h.lexes.tokens.symm.trans (Lexes.separator hc).tokens
  simp at this

theorem value_eq (h : Quotes q v) (hs : s.escape = .all) : s.value (.quote q) = v := by
  rw [Scope.value, hs]
  exact h.value

theorem unquote_eq (h : Quotes q v) (hs : s.escape = .all) : s.unquote q = v := by
  rw [Scope.unquote, hs]
  exact h.value

end Quotes

/-! ### Names as values -/

theorem lacksMark_of_isName {v : Text} (h : v.IsName) : Quoting.LacksMark v :=
  ⟨.backtick, h.not_mem (by decide)⟩

/-- The token that a name is written as where a value stands. -/
def nameToken (v : Text) : Token :=
  if Quoting.mustQuote v then .quote (Quoting.enclose .all v) else .word v

section NameToken

variable {v : Text} {s : Scope}

theorem spells_nameToken (hs : s.escape = .all) (h : v.IsName) :
    Spells 63 (s.quote v) [nameToken v] := by
  rw [Scope.quote, Quoting.quoteWith, hs, nameToken]
  split
  · next quoted =>
    rw [if_pos (by simpa using quoted)]
    exact .quote (lacksMark_of_isName h)
  · next bare =>
    rw [if_neg (by simpa using bare)]
    exact .name h

@[simp] theorem isValue_nameToken (v : Text) : (nameToken v).isValue = true := by
  unfold nameToken
  split <;> rfl

theorem field?_nameToken (v : Text) : (nameToken v).field? = none := by
  unfold nameToken
  split <;> rfl

theorem source?_nameToken (hs : s.escape = .all) (v : Text) :
    (nameToken v).source? = some (s.quote v) := by
  rw [Scope.quote, Quoting.quoteWith, hs, nameToken]
  split
  · next quoted => rw [if_pos (by simpa using quoted)]; rfl
  · next bare => rw [if_neg (by simpa using bare)]; rfl

theorem hasText_nameToken (h : v.IsName) {c : Char} (hc : c ∈ [',', '|', '=', '!']) :
    (nameToken v).hasText [c] = false := by
  unfold nameToken
  split
  · have := (Quotes.enclose (lacksMark_of_isName h)).ne_separator hc
    simpa [Token.hasText, Token.text?] using this
  · have other : Text.isNameChar c = false := by
      simp only [List.mem_cons, List.not_mem_nil, or_false] at hc
      rcases hc with rfl | rfl | rfl | rfl <;> rfl
    have : v ≠ [c] := h.ne ⟨c, by simp, other⟩
    simpa [Token.hasText, Token.text?] using this

theorem quote_ne_comma (hs : s.escape = .all) (h : v.IsName) : s.quote v ≠ [','] := by
  intro comma
  have spells := spells_nameToken hs h
  rw [comma] at spells
  have separator : Spells 63 [','] [.word [',']] :=
    .of_lexes (.singleton (by decide)) (.separator (by simp))
  have tokens := spells.tokensWithin_eq.symm.trans separator.tokensWithin_eq
  have := hasText_nameToken h (c := ',') (by simp)
  simp at tokens
  rw [tokens] at this
  exact absurd this (by decide)

theorem value_nameToken (hs : s.escape = .all) (h : v.IsName) : s.value (nameToken v) = v := by
  unfold nameToken
  split
  · exact (Quotes.enclose (lacksMark_of_isName h)).value_eq hs
  · rfl

end NameToken

end LogQuery
