import LogQuery.Proofs.Token.Capture
import LogQuery.Proofs.Token.Interior
import LogQuery.Proofs.Token.Value

/-!
# The shape of tokens

Those who take tokens apart drop the marks of a quote and the delimiters of a bracket, and compare
words and callees as they stand. They can rely on the shape of a token whatever the text was, also
where its end cuts a quote or a bracket off, and at every level of nesting. The levels are limited:
brackets stand at no more than 64 of them, and an interior that is not empty is left out at the
last one only.
-/

namespace LogQuery

namespace Token

/-- Words and comments are trimmed and not empty. A quote starts and ends with the same mark, at two
places. The text of a bracket starts with an opening character, and its callee has none. -/
def WellFormed : Token → Prop
  | word v | comment v => v.Tight
  | quote v => 2 ≤ v.length ∧ ∃ m : QuoteMark, v.head? = some m.char ∧ v.getLast? = some m.char
  | field _ => True
  | bracket callee raw _ =>
    (∃ c, raw.head? = some c ∧ isOpener c = true) ∧ ∀ c ∈ callee, isOpener c = false

/-- The tokens inside a bracket. -/
def items : Token → List Token
  | bracket _ _ items => items
  | _ => []

/-- The tokens inside this many brackets, and no more. -/
def level (ts : List Token) : Nat → List Token
  | 0 => ts
  | n + 1 => (level ts n).flatMap items

/-- Brackets may be counted from the outermost one as well. -/
theorem level_succ (ts : List Token) (n : Nat) : level ts (n + 1) = level (ts.flatMap items) n := by
  induction n with
  | zero => rfl
  | succ n ih => rw [level, ih, level]

end Token

namespace Lexer

/-! ### Lexemes -/

/-- The token is well-formed, whatever the reader finds inside brackets. -/
def Lexeme.WellFormed (l : Lexeme) : Prop := ∀ read, (l.toToken read).WellFormed

namespace Scan

variable {s : Scan} {c : Char} {u : Text}

/-- A lexeme that is left out when it is blank has a tight text. -/
theorem wellFormed_unless_blank (lexeme : Text → Lexeme)
    (h : ∀ v : Text, v.Tight → (lexeme v).WellFormed) (t : Text) :
    ∀ l ∈ if t.trim.isEmpty then [] else [lexeme t.trim], l.WellFormed := by
  split
  · simp
  · next seen =>
    have tight : t.trim.Tight := { Text.trimmed_trim t with nonempty := by simpa using seen }
    exact List.forall_mem_singleton.mpr (h _ tight)

theorem wellFormed_word (s : Scan) : ∀ l ∈ s.word, l.WellFormed :=
  wellFormed_unless_blank .word (fun _ tight _ => tight) s.buffer

theorem wellFormed_comment (s : Scan) : ∀ l ∈ s.comment, l.WellFormed :=
  wellFormed_unless_blank .comment (fun _ tight _ => tight) s.buffer

/-- A quote that is closed by the mark with which it was opened. -/
theorem wellFormed_quote {m : QuoteMark} {held : List Char} (h : held.reverse = m.char :: u) :
    (Lexeme.quote (m.char :: held).reverse).WellFormed := by
  intro read
  rw [List.reverse_cons, h, List.cons_append]
  refine ⟨?_, m, rfl, ?_⟩
  · simp
  · rw [← List.cons_append, List.getLast?_concat]

/-- A bracket is cut at the first opening character, so its callee has none. -/
theorem wellFormed_bracket {mode : Mode} {held : List Char} {callee : Text} {o : Char}
    (h : held.reverse = callee ++ o :: u) (clean : ∀ c ∈ callee, isOpener c = false)
    (opener : isOpener o = true) (closed : Bool) : (bracket ⟨mode, held⟩ closed).WellFormed := by
  intro read
  rw [bracket_eq h clean opener]
  exact ⟨⟨o, rfl, opener⟩, clean⟩

/-! ### Scans

A scan keeps the opening mark of the quote that it is in, and an opening character of the bracket
that it is in, so what it completes is well-formed. -/

theorem Takes.wellFormed {result : List Lexeme × Scan} (h : s.Takes c result) (keeps : s.Keeps u) :
    ∀ l ∈ result.1, l.WellFormed := by
  have one {l : Lexeme} (hl : l.WellFormed) : ∀ k ∈ [l], k.WellFormed :=
    List.forall_mem_singleton.mpr hl
  cases h with
  | hold mode text => simp
  | mark m plain mark => exact s.wellFormed_word
  | hash plain hash => exact s.wellFormed_word
  | colon plain colon => exact one fun _ => trivial
  | minus plain minus blank => exact one fun _ => .singleton (by decide)
  | space plain ends space => exact s.wellFormed_word
  | separator plain ends visible =>
      have seen : Text.isBlank c = false := by rw [isBlank_of_isBreak ends, visible]
      exact List.forall_mem_append.mpr ⟨s.wellFormed_word, one fun _ => .singleton seen⟩
  | quote m quoted mark =>
      cases keeps with
      | quoted h =>
          cases quoted
          subst mark
          exact one (wellFormed_quote h)
      | _ => contradiction
  | newline inside newline => exact s.wellFormed_comment
  | bracket inside closer =>
      cases keeps with
      | @bracket _ _ held callee u o h clean opener =>
          have longer : (c :: held).reverse = callee ++ o :: (u ++ [c]) := by
            rw [List.reverse_cons, h, List.append_assoc, List.cons_append]
          exact one (wellFormed_bracket longer clean opener true)
      | _ => contradiction

/-- At the end of a text a quote is given its mark, and a bracket may lack its closer. -/
theorem Keeps.wellFormed_finish (h : s.Keeps u) : ∀ l ∈ s.finish, l.WellFormed := by
  cases h with
  | plain held => exact wellFormed_word _
  | escaped held => exact wellFormed_word _
  | quoted h => exact List.forall_mem_singleton.mpr (wellFormed_quote h)
  | quotedEscaped h => exact List.forall_mem_singleton.mpr (wellFormed_quote h)
  | comment held => exact wellFormed_comment _
  | bracket h clean opener =>
      exact List.forall_mem_singleton.mpr (wellFormed_bracket h clean opener false)

/-- What one step completes is well-formed, and so is what the rest of the text does. -/
theorem Keeps.wellFormed_run (h : s.Keeps u) (t : Text) : ∀ l ∈ s.run t, l.WellFormed := by
  induction t generalizing s u with
  | nil => exact h.wellFormed_finish
  | cons c t ih =>
      obtain ⟨-, k, keeps, -⟩ := h.step c
      exact List.forall_mem_append.mpr ⟨(s.takes_step c).wellFormed h, ih keeps⟩

end Scan

theorem wellFormed_of_mem_lexemes {t : Text} {l : Lexeme} (h : l ∈ lexemes t) : l.WellFormed :=
  Scan.keeps_start.wellFormed_run t.trim l h

/-! ### Levels -/

variable {levels n : Nat} {t : Text} {k outer : Token}

/-- A token is that of a lexeme, and one level is used up by it. -/
theorem exists_lexeme_of_mem (h : k ∈ tokensWithin levels t) :
    ∃ fewer, levels = fewer + 1 ∧ ∃ l ∈ lexemes t, l.toToken (tokensWithin fewer) = k := by
  cases levels with
  | zero => contradiction
  | succ fewer => exact ⟨fewer, rfl, List.mem_map.mp h⟩

/-- The tokens inside a bracket are those of some text, read with one level less. -/
theorem exists_text_of_mem_items (ho : outer ∈ tokensWithin levels t) (hk : k ∈ outer.items) :
    ∃ u, k ∈ tokensWithin (levels - 1) u := by
  obtain ⟨fewer, rfl, l, -, rfl⟩ := exists_lexeme_of_mem ho
  cases l with
  | bracket callee raw closed => exact ⟨Lexeme.interior raw closed, hk⟩
  | _ => contradiction

/-- At every level the tokens are those of some text, read with the levels that are left. -/
theorem exists_text_of_mem_level (h : k ∈ Token.level (tokensWithin levels t) n) :
    ∃ u, k ∈ tokensWithin (levels - n) u := by
  induction n generalizing k with
  | zero => exact ⟨t, h⟩
  | succ n ih =>
      obtain ⟨outer, ho, hk⟩ := List.mem_flatMap.mp h
      obtain ⟨u, hu⟩ := ih ho
      exact exists_text_of_mem_items hu hk

theorem tokensWithin_eq_nil_iff : tokensWithin levels t = [] ↔ levels = 0 ∨ lexemes t = [] := by
  cases levels <;> simp [tokensWithin]

/-- A bracket uses up one level. Its interior is empty if none is left for it, or if nothing stands
in it. -/
theorem items_eq_nil_iff_of_mem {b : Bracket} (h : b.toToken ∈ tokensWithin levels t) :
    0 < levels ∧ ∃ closed,
      (b.items = [] ↔ levels = 1 ∨ lexemes (Lexeme.interior b.raw closed) = []) := by
  cases levels with
  | zero => contradiction
  | succ fewer =>
      obtain ⟨before, after, read⟩ := List.append_of_mem h
      obtain ⟨-, closed, -, -, -, items⟩ := exists_lexemes_bracket read
      refine ⟨Nat.succ_pos fewer, closed, ?_⟩
      rw [items, tokensWithin_eq_nil_iff, Nat.add_eq_right]

/-! ### Brackets inside each other -/

/-- The text in this many round brackets. -/
def parens (t : Text) : Nat → Text
  | 0 => t
  | n + 1 => '(' :: (parens t n ++ [')'])

theorem passed_parens (h : Scan.Passed t) (n : Nat) : Scan.Passed (parens t n) := by
  induction n with
  | zero => exact h
  | succ n ih => exact ih.brackets rfl rfl

theorem tokensWithin_parens (h : Scan.Passed t) (levels n : Nat) :
    tokensWithin (levels + 1) (parens t (n + 1)) =
      [.bracket [] (parens t (n + 1)) (tokensWithin levels (parens t n))] := by
  have opening : Text.Tight ['('] := .singleton (by decide)
  have closing : Text.Tight [')'] := .singleton (by decide)
  have tight : (parens t (n + 1)).Tight := opening.around (parens t n) closing
  have lexes : Lexes levels (parens t (n + 1)) _ :=
    .capture (w := []) rfl rfl (by simp) (passed_parens h n).captured
  exact (Spells.of_lexes tight lexes).tokensWithin_eq

/-- A text in brackets is read at the level behind them, with the levels that are left. -/
theorem level_tokensWithin_parens (h : Scan.Passed t) (levels n : Nat) :
    Token.level (tokensWithin (levels + n) (parens t n)) n = tokensWithin levels t := by
  induction n with
  | zero => rfl
  | succ n ih =>
      rw [← Nat.add_assoc, tokensWithin_parens h, Token.level_succ, List.flatMap_singleton]
      exact ih

end Lexer

/-- The tokens of a text are well-formed at every level. Brackets stand inside each other at 64
levels at most: those at the last level have an empty interior, and no other interior is empty in
which something can be read. -/
theorem wellFormed_tokenize (t : Text) :
    (∀ n, ∀ k ∈ Token.level (tokenize t) n, k.WellFormed) ∧
      ∀ n (b : Bracket), b.toToken ∈ Token.level (tokenize t) n →
        n + 1 ≤ 64 ∧ ∃ closed, (b.items = [] ↔
          n + 1 = 64 ∨ Lexer.lexemes (Lexer.Lexeme.interior b.raw closed) = []) := by
  constructor
  · intro n k hk
    obtain ⟨u, hu⟩ := Lexer.exists_text_of_mem_level hk
    obtain ⟨fewer, -, l, hl, rfl⟩ := Lexer.exists_lexeme_of_mem hu
    exact Lexer.wellFormed_of_mem_lexemes hl _
  · intro n b hb
    obtain ⟨u, hu⟩ := Lexer.exists_text_of_mem_level hb
    obtain ⟨left, closed, empty⟩ := Lexer.items_eq_nil_iff_of_mem hu
    rw [Lexer.maxNesting] at left empty
    have last : 64 - n = 1 ↔ n + 1 = 64 := by omega
    rw [last] at empty
    exact ⟨by omega, closed, empty⟩

/-- In 63 brackets a quote is a token, and a bracket is one whose interior is not read, though
something stands in it. -/
theorem wellFormed_tokenize_deepest :
    let ts := Token.level (tokenize (Lexer.parens "f((x)) \"q\"" 63)) 63
    let b : Bracket := ⟨"f", "((x))", []⟩
    (Token.quote "\"q\"" ∈ ts ∧ Token.WellFormed (.quote "\"q\"")) ∧
      b.toToken ∈ ts ∧ 63 + 1 ≤ 64 ∧ ∃ closed, (b.items = [] ↔
        63 + 1 = 64 ∨ Lexer.lexemes (Lexer.Lexeme.interior b.raw closed) = []) := by
  intro ts b
  have passed : Lexer.Scan.Passed "f((x)) \"q\"" := fun _ _ => rfl
  have deepest : ts = [b.toToken, .quote "\"q\""] :=
    Lexer.level_tokensWithin_parens passed 1 63
  have quote : .quote "\"q\"" ∈ ts := by simp [deepest]
  have bracket : b.toToken ∈ ts := by simp [deepest]
  exact ⟨⟨quote, (wellFormed_tokenize _).1 63 _ quote⟩, bracket,
    (wellFormed_tokenize _).2 63 b bracket⟩

end LogQuery
