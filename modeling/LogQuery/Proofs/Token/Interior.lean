import LogQuery.Proofs.Token.Ending
import LogQuery.Proofs.Token.Step

/-!
# The interior of a bracket

A bracket keeps its raw text beside the tokens of its interior, and readers take the interior
from either. The text inside is the raw text without its first and last character. That is
what was read to tokens if the bracket is closed. A bracket that the end of the text cuts off
has no closing delimiter to drop, so there the text inside lacks the last character, which its
tokens hold. The two still agree where that character has no effect.

Interiors are read to a fixed number of levels. A bracket that does not use them up reads the
same on its own.
-/

namespace LogQuery

namespace Token

mutual

/-- How many brackets stand inside each other in a token, itself among them. -/
def depth : Token → Nat
  | bracket _ _ items => depthAll items + 1
  | _ => 0

/-- The largest depth of the tokens. -/
def depthAll : List Token → Nat
  | [] => 0
  | t :: ts => max t.depth (depthAll ts)

end

theorem depth_le_depthAll {t : Token} {ts : List Token} (h : t ∈ ts) : t.depth ≤ depthAll ts := by
  induction ts with
  | nil => contradiction
  | cons u us ih =>
      rw [depthAll]
      rcases List.mem_cons.mp h with rfl | h
      · exact Nat.le_max_left _ _
      · exact Nat.le_trans (ih h) (Nat.le_max_right _ _)

end Token

namespace Lexer

/-! ### Levels -/

/-- A text whose brackets do not fill the levels reads the same with one level more. -/
theorem tokensWithin_succ {levels : Nat} {t : Text}
    (h : Token.depthAll (tokensWithin levels t) < levels) :
    tokensWithin (levels + 1) t = tokensWithin levels t := by
  induction levels generalizing t with
  | zero => contradiction
  | succ levels ih =>
      rw [tokensWithin, tokensWithin]
      apply List.map_congr_left
      intro l hl
      cases l with
      | bracket callee raw closed =>
          have member :
              Token.bracket callee raw (tokensWithin levels (Lexeme.interior raw closed)) ∈
                tokensWithin (levels + 1) t := by
            rw [tokensWithin]
            exact List.mem_map_of_mem hl
          have inside := Token.depth_le_depthAll member
          rw [Token.depth] at inside
          rw [Lexeme.toToken, Lexeme.toToken, ih (by omega)]
      | _ => rfl

/-! ### Closed brackets -/

namespace Scan

variable {s : Scan} {t callee raw : Text} {closed : Bool}

theorem not_mem_word (s : Scan) : Lexeme.bracket callee raw closed ∉ s.word := by
  rw [word]
  split <;> simp

theorem not_mem_comment (s : Scan) : Lexeme.bracket callee raw closed ∉ s.comment := by
  rw [comment]
  split <;> simp

/-- A bracket that a character completes is closed. -/
theorem Takes.closed_of_mem {c : Char} {result : List Lexeme × Scan} (kind : s.Takes c result)
    (h : .bracket callee raw closed ∈ result.1) : closed = true := by
  cases kind with
  | hold mode text => contradiction
  | mark m plain mark => exact absurd h (not_mem_word s)
  | hash plain hash => exact absurd h (not_mem_word s)
  | colon plain colon => simp at h
  | minus plain minus blank => simp at h
  | space plain ends space => exact absurd h (not_mem_word s)
  | separator plain ends visible => simp [not_mem_word] at h
  | quote m quoted mark => simp at h
  | newline inside newline => exact absurd h (not_mem_comment s)
  | bracket inside closer =>
      rw [List.mem_singleton, Scan.bracket] at h
      cases h
      rfl

theorem closed_of_mem_feed (h : .bracket callee raw closed ∈ (s.feed t).1) : closed = true := by
  induction t generalizing s with
  | nil => contradiction
  | cons c cs ih =>
      rw [feed_cons] at h
      rcases List.mem_append.mp h with h | h
      · exact (s.takes_step c).closed_of_mem h
      · exact ih h

theorem finish_bracket (h : s.mode.isBracket = true) : s.finish = [s.bracket false] := by
  obtain ⟨mode, held⟩ := s
  cases mode with
  | bracket depth within => rfl
  | _ => contradiction

theorem not_mem_finish (h : s.mode.isBracket = false) :
    Lexeme.bracket callee raw closed ∉ s.finish := by
  obtain ⟨mode, held⟩ := s
  cases mode with
  | plain => exact not_mem_word _
  | escaped => exact not_mem_word _
  | quoted m => simp [finish]
  | quotedEscaped m => simp [finish]
  | comment => exact not_mem_comment _
  | bracket depth within => contradiction

end Scan

/-- A bracket is cut off exactly when it is the last token of a text that ends in a bracket. -/
theorem closed_eq_false_iff {t callee raw : Text} {closed : Bool} {ls rs : List Lexeme}
    (h : lexemes t = ls ++ .bracket callee raw closed :: rs) :
    closed = false ↔ rs = [] ∧ endsInBracket t = true := by
  have mode : (Scan.start.feed t.trim).2.mode.isBracket = endsInBracket t := by
    rw [Scan.mode_feed, ← endsInBracket_trim]
    rfl
  rw [lexemes, Scan.run_eq_feed] at h
  cases cut : endsInBracket t with
  | false =>
      have member : .bracket callee raw closed ∈
          (Scan.start.feed t.trim).1 ++ (Scan.start.feed t.trim).2.finish := by
        rw [h]
        simp
      rcases List.mem_append.mp member with fed | last
      · simp [Scan.closed_of_mem_feed fed]
      · exact absurd last (Scan.not_mem_finish (mode.trans cut))
  | true =>
      rw [Scan.finish_bracket (mode.trans cut)] at h
      rcases rs.eq_nil_or_concat' with rfl | ⟨rs, l, rfl⟩
      · obtain ⟨-, last⟩ := List.append_inj' h rfl
        simp only [Scan.bracket, List.cons.injEq, Lexeme.bracket.injEq, and_true] at last
        simp [last.2.2]
      · have init : (Scan.start.feed t.trim).1 = ls ++ .bracket callee raw closed :: rs := by
          rw [← List.cons_append, ← List.append_assoc] at h
          exact (List.append_inj' h rfl).1
        have fed : .bracket callee raw closed ∈ (Scan.start.feed t.trim).1 := by
          rw [init]
          simp
        simp [Scan.closed_of_mem_feed fed]

/-- The lexeme behind a bracket among the tokens of a text. -/
theorem exists_lexemes_bracket {levels : Nat} {t : Text} {before after : List Token} {b : Bracket}
    (read : tokensWithin (levels + 1) t = before ++ b.toToken :: after) :
    ∃ ls closed rs, lexemes t = ls ++ .bracket b.callee b.raw closed :: rs ∧
      (rs = [] ↔ after = []) ∧
      b.items = tokensWithin levels (Lexeme.interior b.raw closed) := by
  rw [tokensWithin, List.map_eq_append_iff] at read
  obtain ⟨ls, rest, split, -, tail⟩ := read
  obtain ⟨l, rs, rfl, token, rfl⟩ := List.map_eq_cons_iff.mp tail
  cases l with
  | bracket callee raw closed =>
      obtain ⟨rfl, rfl, items⟩ : callee = b.callee ∧ raw = b.raw ∧
          tokensWithin levels (Lexeme.interior raw closed) = b.items := by
        simpa [Lexeme.toToken, Bracket.toToken] using token
      exact ⟨ls, closed, rs, split, by simp, items.symm⟩
  | _ => simp [Lexeme.toToken, Bracket.toToken] at token

end Lexer

open Lexer (endsInBracket NeedlessEnd)

/-- The interior of a bracket reads as the tokens of the bracket if the bracket is closed. If
the end of the text cuts it off, this holds of all that follows the opening delimiter, and of
the interior only if its last character has no effect. -/
theorem tokenize_inner_iff {t : Text} {before after : List Token} {b : Bracket}
    (read : tokenize t = before ++ b.toToken :: after) (shallow : Token.depthAll b.items < 60) :
    (tokenize b.inner = b.items ↔
      after ≠ [] ∨ endsInBracket t = false ∨ NeedlessEnd b.raw.tail) ∧
      (after = [] → endsInBracket t = true → tokenize b.raw.tail = b.items) := by
  obtain ⟨ls, closed, rs, split, ending, items⟩ := Lexer.exists_lexemes_bracket read
  have cutOff := Lexer.closed_eq_false_iff split
  rw [ending] at cutOff
  have interior : tokenize (Lexer.Lexeme.interior b.raw closed) = b.items := by
    rw [items] at shallow ⊢
    exact Lexer.tokensWithin_succ (by omega)
  cases closed with
  | true =>
      have whole : after = [] → ¬endsInBracket t = true :=
        fun last bracket => absurd (cutOff.mpr ⟨last, bracket⟩) (by simp)
      refine ⟨iff_of_true interior ?_, fun last bracket => absurd bracket (whole last)⟩
      by_cases last : after = []
      · exact .inr (.inl (by simpa using whole last))
      · exact .inl last
  | false =>
      obtain ⟨last, bracket⟩ := cutOff.mp rfl
      have interior : tokenize b.raw.tail = b.items := interior
      refine ⟨?_, fun _ _ => interior⟩
      have shorter : tokenize b.inner = tokenize b.raw.tail ↔ NeedlessEnd b.raw.tail :=
        Lexer.tokensWithin_dropLast_iff 63 b.raw.tail
      rw [interior] at shorter
      simpa [last, bracket] using shorter

/-- A closed bracket and one that is cut off, in one text. -/
theorem tokenize_inner_closed_and_cut_off :
    (tokenize "f(x) (ab" = [] ++ Bracket.toToken ⟨"f", "(x)", [.word "x"]⟩ ::
        [.bracket [] "(ab" [.word "ab"]] ∧ Token.depthAll [.word "x"] < 60 ∧
      tokenize (Bracket.inner ⟨"f", "(x)", [.word "x"]⟩) = [.word "x"]) ∧
    (tokenize "f(x) (ab" = [.bracket "f" "(x)" [.word "x"]] ++
        Bracket.toToken ⟨[], "(ab", [.word "ab"]⟩ :: [] ∧ Token.depthAll [.word "ab"] < 60 ∧
      tokenize (List.tail ("(ab" : Text)) = [.word "ab"]) :=
  have first : tokenize "f(x) (ab" = [] ++ Bracket.toToken ⟨"f", "(x)", [.word "x"]⟩ ::
      [.bracket [] "(ab" [.word "ab"]] := rfl
  have second : tokenize "f(x) (ab" = [.bracket "f" "(x)" [.word "x"]] ++
      Bracket.toToken ⟨[], "(ab", [.word "ab"]⟩ :: [] := rfl
  ⟨⟨first, by decide, (tokenize_inner_iff first (by decide)).1.mpr (.inl (by simp))⟩,
    ⟨second, by decide, (tokenize_inner_iff second (by decide)).2 rfl rfl⟩⟩

/-- The interior of a bracket that is cut off lacks the last character that was typed. -/
theorem tokenize_inner_of_cut_off :
    tokenize "(ab" = [Bracket.toToken ⟨[], "(ab", [.word "ab"]⟩] ∧
      Token.depthAll [.word "ab"] < 60 ∧
      tokenize (Bracket.inner ⟨[], "(ab", [.word "ab"]⟩) ≠ [.word "ab"] := by
  have inner : tokenize (Bracket.inner ⟨[], "(ab", [.word "ab"]⟩) = [.word "a"] := rfl
  refine ⟨rfl, by decide, ?_⟩
  rw [inner]
  simp

end LogQuery
