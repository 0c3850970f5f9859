import LogQuery.Proofs.Decimal.Whole
import LogQuery.Proofs.Query.Form
import LogQuery.Definition

/-!
# Clauses

Behind its keyword an operation goes on with clauses: words, numbers and bracketed lists, each
behind a space and left out at its default. A clause that is left out has no text and no
tokens, so clauses are put together without asking which of them are there.
-/

namespace LogQuery

open Lexer (Spells Lexes)

/-! ### Brackets and numbers as tokens -/

namespace Text

/-- What may stand between brackets and is given back as it is: no white space at the ends,
neither quotes nor brackets. -/
structure IsContent (t : Text) : Prop extends Trimmed t where
  inert : Lexer.AllInert t

instance (t : Text) : Decidable t.IsContent :=
  decidable_of_iff (t.Trimmed ∧ Lexer.AllInert t)
    ⟨fun h => { h.1 with inert := h.2 }, fun h => ⟨h.toTrimmed, h.inert⟩⟩

end Text

/-- A text between round brackets behind a callee. -/
def Token.call (callee t : Text) : Token :=
  .bracket callee ('(' :: (t ++ [')'])) (Lexer.tokensWithin 63 t)

/-- A text between round brackets, as a token on its own. -/
def Token.group (t : Text) : Token := .call [] t

theorem Lexer.Spells.call {w t : Text} (hw : w.IsName) (h : Lexer.AllInert t) :
    Spells 63 (w ++ '(' :: (t ++ [')'])) [.call w t] := by
  have closing : Text.Tight [')'] := .singleton (by decide)
  refine .of_lexes (by simpa using hw.tight.around ('(' :: t) closing) ?_
  exact Lexes.call rfl rfl (fun c hc => Lexer.isPlain_of_isNameChar (hw.chars c hc)) h

theorem Lexer.Spells.group {t : Text} (h : Lexer.AllInert t) :
    Spells 63 ('(' :: (t ++ [')'])) [.group t] := by
  have opening : Text.Tight ['('] := .singleton (by decide)
  have closing : Text.Tight [')'] := .singleton (by decide)
  refine .of_lexes (by simpa using opening.around t closing) ?_
  exact Lexes.call (w := []) rfl rfl (by simp) h

/-- The text between the brackets, without the white space that it does not have. -/
theorem body_group {t : Text} (h : t.IsContent) (callee : Text) (items : List Token) :
    Bracket.body ⟨callee, '(' :: (t ++ [')']), items⟩ = t := by
  simp [Bracket.body, Bracket.inner, h.trim_eq]

/-- A word of a clause: a name that is no connective. -/
structure Text.IsClauseWord (w : Text) : Prop extends IsName w where
  inner : (Token.word w).isInner = true

instance (w : Text) : Decidable w.IsClauseWord :=
  decidable_of_iff (w.IsName ∧ (Token.word w).isInner = true)
    ⟨fun h => { h.1 with inner := h.2 }, fun h => ⟨h.toIsName, h.inner⟩⟩

theorem isClauseWord_natText (n : Nat) : (Decimal.natText n).IsClauseWord := by
  refine { Decimal.isName_natText n with inner := ?_ }
  have lower : Text.lower (Decimal.natText n) = Decimal.natText n := by
    rw [Text.lower, Text.lowerAfter_eq_map (Decimal.isName_natText n).small]
    calc (Decimal.natText n).map Char.toLower
        = (Decimal.natText n).map id := List.map_congr_left fun c hc =>
          Text.toLower_of_isDigit (Decimal.isDigit_natText n c hc)
      _ = Decimal.natText n := List.map_id _
  have other {w : Text} (hw : ∃ c ∈ w, c.isDigit = false) : Decimal.natText n ≠ w := by
    obtain ⟨c, hc, notDigit⟩ := hw
    rintro rfl
    rw [Decimal.isDigit_natText n c hc] at notDigit
    contradiction
  have connective : (Token.word (Decimal.natText n)).isConnective = false := by
    rw [Token.isConnective, Token.word?, Option.any_some, Text.isOneOf, List.contains_eq_mem, lower]
    simp only [List.mem_cons, List.not_mem_nil, or_false, decide_eq_false_iff_not, not_or]
    exact ⟨other ⟨'a', by decide⟩, other ⟨'o', by decide⟩, other ⟨'n', by decide⟩⟩
  have bar : Decimal.natText n ≠ ['|'] := other ⟨'|', by decide⟩
  simpa [Token.isInner, Token.hasText, Token.text?, Token.isComment, connective] using bar

/-! ### Trails -/

/-- One more token of a compact text. -/
def Token.addCompact (out : Text) (t : Token) : Text :=
  let piece := Token.sourceText [t]
  if piece.isEmpty then out
  else if out.isEmpty || piece == [','] then out ++ piece
  else out ++ ' ' :: piece

theorem Token.compactText_eq (ts : List Token) :
    Token.compactText ts = ts.foldl Token.addCompact [] := rfl

/-- A token that is one tight piece of text, not a comma. -/
structure Token.IsPiece (k : Token) (t : Text) : Prop where
  source : k.source? = some t
  tight : t.Tight
  notComma : t ≠ [',']

namespace Token.IsPiece

variable {k : Token} {t : Text}

theorem sourceText_eq (h : k.IsPiece t) : Token.sourceText [k] = t := by
  simp [Token.sourceText, h.source, Text.join, h.tight.trim_eq]

theorem addCompact_nil (h : k.IsPiece t) : Token.addCompact [] k = t := by
  simp [Token.addCompact, h.sourceText_eq]

theorem addCompact_eq (h : k.IsPiece t) {out : Text} (hout : out ≠ []) :
    Token.addCompact out k = out ++ ' ' :: t := by
  simp [Token.addCompact, h.sourceText_eq, h.tight.nonempty, hout, h.notComma]

end Token.IsPiece

/-- What follows a keyword: nothing, or a text behind a space, with tokens that belong to the
operation and name no field. Put behind a text one by one the tokens give the text back. -/
structure Trail (c : Text) (cts : List Token) : Prop where
  text : c = [] ∧ cts = [] ∨ ∃ u, c = ' ' :: u ∧ Spells 63 u cts
  compact : ∀ out ≠ [], cts.foldl Token.addCompact out = out ++ c
  inner : ∀ t ∈ cts, t.isInner = true
  noField : ∀ t ∈ cts, t.field? = none

/-- The tokens of a word that stands for a flag. -/
def flagTokens (w : Text) (b : Bool) : List Token := if b then [.word w] else []

/-- The tokens of a number behind a keyword, left out at zero. -/
def numberTokens (kw : Text) (n : Nat) : List Token :=
  if n = 0 then [] else [.word kw, .word (Decimal.natText n)]

/-- The tokens of a list of fields behind two words, left out when it is empty. -/
def groupTokens (u w t : Text) : List Token :=
  if t = [] then [] else [.word u, .word w, .group t]

/-- The tokens of a number in front of the fields, left out at its default. -/
def limitTokens (default n : Nat) : List Token :=
  if n = default then [] else [.word (Decimal.natText n)]

namespace Trail

variable {t c d u w : Text} {ts cts dts : List Token} {n : Nat}

/-- A tail goes on with the tokens of the text before it. -/
theorem spells (hc : Trail c cts) (h : Spells 63 t ts) : Spells 63 (t ++ c) (ts ++ cts) := by
  rcases hc.text with ⟨rfl, rfl⟩ | ⟨u, rfl, hu⟩
  · simpa using h
  · exact h.space hu

theorem nil : Trail [] [] where
  text := .inl ⟨rfl, rfl⟩
  compact := by simp
  inner := by simp
  noField := by simp

theorem append (hc : Trail c cts) (hd : Trail d dts) : Trail (c ++ d) (cts ++ dts) where
  text := by
    rcases hc.text with ⟨rfl, rfl⟩ | ⟨u, rfl, hu⟩
    · exact hd.text
    · exact .inr ⟨u ++ d, rfl, hd.spells hu⟩
  compact out hout := by
    rw [List.foldl_append, hc.compact out hout, hd.compact _ (by simp [hout]), List.append_assoc]
  inner t ht := (List.mem_append.mp ht).elim (hc.inner t) (hd.inner t)
  noField t ht := (List.mem_append.mp ht).elim (hc.noField t) (hd.noField t)

/-- One token. -/
theorem token {k : Token} (h : Spells 63 t [k]) (source : k.source? = some t)
    (notComma : t ≠ [',']) (inner : k.isInner = true) (noField : k.field? = none) :
    Trail (' ' :: t) [k] where
  text := .inr ⟨t, rfl, h⟩
  compact out hout := Token.IsPiece.addCompact_eq ⟨source, h.tight, notComma⟩ hout
  inner := by simpa using inner
  noField := by simpa using noField

theorem word (hw : w.IsClauseWord) : Trail (' ' :: w) [.word w] :=
  .token (.name hw.toIsName) rfl (hw.ne ⟨',', by simp, by decide⟩) hw.inner rfl

theorem number (n : Nat) : Trail (' ' :: Decimal.natText n) [.word (Decimal.natText n)] :=
  .word (isClauseWord_natText n)

theorem group (h : Lexer.AllInert t) : Trail (" (" ++ t ++ ")") [.group t] :=
  .token (.group h) rfl (by simp) rfl rfl

/-- A name as a value. -/
theorem name {s : Scope} (hs : s.escape = .all) (hw : w.IsName) :
    Trail (' ' :: s.quote w) [nameToken w] :=
  .token (spells_nameToken hs hw) (source?_nameToken hs w) (quote_ne_comma hs hw)
    (isInner_nameToken hw) (field?_nameToken w)

theorem flagClause (hw : w.IsClauseWord) (b : Bool) :
    Trail (LogQuery.flagClause (' ' :: w) b) (flagTokens w b) := by
  cases b with
  | false => exact .nil
  | true => exact .word hw

theorem numberClause (hw : w.IsClauseWord) (n : Nat) :
    Trail (LogQuery.numberClause (' ' :: (w ++ [' '])) (wholeText? n)) (numberTokens w n) := by
  unfold numberTokens wholeText?
  split
  · exact .nil
  · simpa [LogQuery.numberClause] using (word hw).append (number n)

theorem groupClause (hu : u.IsClauseWord) (hw : w.IsClauseWord) (h : t.IsContent) :
    Trail (LogQuery.groupClause (' ' :: (u ++ ' ' :: w)) t) (groupTokens u w t) := by
  unfold groupTokens
  split
  · next empty =>
    subst empty
    exact .nil
  · next nonempty =>
    simpa [LogQuery.groupClause, nonempty] using
      ((word hu).append (word hw)).append (group h.inert)

end Trail

/-! ### Reading brackets and numbers -/

namespace Reader

variable {w : Text} {s : Scope} {n : Nat}

theorem run_takeKeywordGroup {kw : Text} (h : w.sameFold kw = true) (t : Text) (ts : List Token) :
    (takeKeywordGroup kw).run (.word w :: Token.group t :: ts) =
      (some ⟨[], '(' :: (t ++ [')']), Lexer.tokensWithin 63 t⟩, ts) := by
  simp [takeKeywordGroup, Token.group, Token.call, Token.isKeyword_word, h]

/-- Another word in front opens no group. -/
theorem run_takeKeywordGroup_word {kw : Text} (h : w.sameFold kw = false) (ts : List Token) :
    (takeKeywordGroup kw).run (.word w :: ts) = (none, .word w :: ts) := by
  rw [takeKeywordGroup, run_bind, run_look]
  cases ts with
  | nil => rfl
  | cons t ts =>
      cases t with
      | bracket callee raw items => simp [Token.isKeyword_word, h]
      | _ => rfl

theorem run_takeByGroup (t : Text) (ts : List Token) :
    takeByGroup.run (.word "by" :: Token.group t :: ts) =
      (some ⟨[], '(' :: (t ++ [')']), Lexer.tokensWithin 63 t⟩, ts) := by
  rw [takeByGroup, run_bind, run_takeKeywordGroup rfl]
  rfl

/-- A call of another name is no group. -/
theorem run_takeByGroup_call {kw : Text} (hne : kw ≠ []) (h : kw.sameFold ['b', 'y'] = false)
    (A : Text) (ts : List Token) :
    takeByGroup.run (.call kw A :: ts) = (none, .call kw A :: ts) := by
  have keyword : (takeKeywordGroup ['b', 'y']).run (.call kw A :: ts) =
      (none, .call kw A :: ts) := by
    simp [takeKeywordGroup, Token.call, h]
  have group : takeGroup.run (.call kw A :: ts) = (none, .call kw A :: ts) := by
    simp [takeGroup, Token.call, Token.bracket?, Bracket.isBare, hne]
  simp [takeByGroup, keyword, group]

/-! ### Numbers -/

theorem number?_natText (s : Scope) (h : n ≤ Decimal.maxMantissa) :
    number? s (.word (Decimal.natText n)) = some (.ofInt n) :=
  Decimal.ofLeading?_natText h

theorem run_takeNumber (s : Scope) (d : Int) (h : n < 2 ^ 63) (ts : List Token) :
    (takeNumber s d).run (.word (Decimal.natText n) :: ts) = (.ofInt n, ts) := by
  simp [takeNumber, number?_natText s (Decimal.le_maxMantissa h)]

theorem run_takeNumber? (s : Scope) (h : n < 2 ^ 63) (ts : List Token) :
    (takeNumber? s).run (.word (Decimal.natText n) :: ts) = (some (.ofInt n), ts) := by
  simp [takeNumber?, number?_natText s (Decimal.le_maxMantissa h)]

/-- Where no number comes next, none is taken. -/
theorem run_takeNumber?_none {t : Token} (h : number? s t = none) (ts : List Token) :
    (takeNumber? s).run (t :: ts) = (none, t :: ts) := by
  simp [takeNumber?, h]

theorem run_takeNumber?_limit (s : Scope) (default : Nat) (h : n < 2 ^ 63) (ts : List Token) :
    (takeNumber? s).run (limitTokens default n ++ .word "by" :: ts) =
      (if n = default then none else some (.ofInt n), .word "by" :: ts) := by
  unfold limitTokens
  split
  · exact run_takeNumber?_none rfl ts
  · exact run_takeNumber? s h _

theorem getD_limit (default n : Nat) :
    (if n = default then none else some (Decimal.ofInt n)).getD (.ofInt default) = .ofInt n := by
  split
  · next usual => rw [usual]; rfl
  · rfl

theorem run_takeInt (h : n < 2 ^ 63) (ts : List Token) :
    takeInt.run (.word (Decimal.natText n) :: ts) = (.ofInt n, ts) := by
  simp [takeInt, Token.text?, Decimal.leadingInt?_natText h]

end Reader

/-! ### Reading clauses one after the other -/

namespace Reader

variable {σ : Type} {step : σ → Reader (Round σ)} {c c' c₁ : σ} {ts rest ts' : List Token}

/-- A round reads the tokens of a clause and changes the state by it. A clause that is left
out has no tokens and changes nothing. -/
def Reads (step : σ → Reader (Round σ)) (c : σ) (ts : List Token) (c₁ : σ) (rest : List Token) :
    Prop :=
  ts = [] ∧ c₁ = c ∨ ts ≠ [] ∧ (step c).run (ts ++ rest) = (.more c₁, rest)

theorem Reads.iterates (h : Reads step c ts c₁ rest) (next : Iterates step c₁ rest c' ts') :
    Iterates step c (ts ++ rest) c' ts' := by
  rcases h with ⟨rfl, rfl⟩ | ⟨hne, read⟩
  · exact next
  · refine .more read ?_ next
    rw [List.length_append]
    have := List.length_pos_iff.mpr hne
    omega

theorem Reads.iterates_last (h : Reads step c ts c₁ [])
    (stop : (step c₁).run [] = (.done c₁, [])) : Iterates step c ts c₁ [] := by
  simpa using h.iterates (.done stop)

theorem Reads.flag {w : Text} {b : Bool} (absent : b = false → c₁ = c)
    (present : b = true → (step c).run (.word w :: rest) = (.more c₁, rest)) :
    Reads step c (flagTokens w b) c₁ rest := by
  cases b with
  | false => exact .inl ⟨rfl, absent rfl⟩
  | true => exact .inr ⟨by simp [flagTokens], present rfl⟩

theorem Reads.number {w : Text} {n : Nat} (absent : n = 0 → c₁ = c)
    (present : (step c).run (.word w :: .word (Decimal.natText n) :: rest) = (.more c₁, rest)) :
    Reads step c (numberTokens w n) c₁ rest := by
  unfold numberTokens
  split
  · next zero => exact .inl ⟨rfl, absent zero⟩
  · exact .inr ⟨by simp, present⟩

theorem Reads.group {u w t : Text} (absent : t = [] → c₁ = c)
    (present : (step c).run (.word u :: .word w :: .group t :: rest) = (.more c₁, rest)) :
    Reads step c (groupTokens u w t) c₁ rest := by
  unfold groupTokens
  split
  · next empty => exact .inl ⟨rfl, absent empty⟩
  · exact .inr ⟨by simp, present⟩

end Reader

end LogQuery
