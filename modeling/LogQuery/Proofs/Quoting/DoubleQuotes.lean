import LogQuery.Proofs.Token.Capture

/-!
# Texts in double quotes

Between double quotes a text goes on as long as its backslashes and the characters behind them make
up pairs and no double quote stands outside of a pair. All scans agree about this: the one for
tokens, those that capture brackets, and the one that takes the escapes away. A text in which every
backslash and every double quote stands behind a backslash of its own is such a text. Any other one
either has a double quote that ends the quote early or a backslash at its end.
-/

namespace LogQuery

open Lexer (Lexes Spells)

namespace Escape

/-- The escapes between double quotes. -/
def forDouble (t : Text) : Text := addAll '"' (addAll '\\' t)

/-- The characters that are escaped. -/
def isEscaped (c : Char) : Bool := c == '\\' || c == '"'

theorem forDouble_cons_escaped {c : Char} (h : isEscaped c = true) (t : Text) :
    forDouble (c :: t) = '\\' :: c :: forDouble t := by
  simp only [isEscaped, Bool.or_eq_true, beq_iff_eq] at h
  rcases h with rfl | rfl
  · simp [forDouble, addAll]
  · simp [forDouble, addAll]

theorem forDouble_cons {c : Char} (h : isEscaped c = false) (t : Text) :
    forDouble (c :: t) = c :: forDouble t := by
  simp only [isEscaped, Bool.or_eq_false_iff, beq_eq_false_iff_ne] at h
  simp [forDouble, addAll, h]

end Escape

/-! ### Pairs -/

namespace Quoting

open Escape

/-- A text that goes on between double quotes: every backslash has a character behind it, and both
are a pair, and outside of the pairs there is no double quote. -/
inductive Paired : Text → Prop
  | nil : Paired []
  | pair (c : Char) {t : Text} (h : Paired t) : Paired ('\\' :: c :: t)
  | plain {c : Char} {t : Text} (single : isEscaped c = false) (h : Paired t) : Paired (c :: t)

theorem paired_forDouble (t : Text) : Paired (forDouble t) := by
  induction t with
  | nil => exact .nil
  | cons c t ih =>
      cases h : isEscaped c with
      | true =>
          rw [forDouble_cons_escaped h]
          exact .pair c ih
      | false =>
          rw [forDouble_cons h]
          exact .plain h ih

/-- Any text is made of pairs up to a double quote, or but for a backslash at the end. -/
theorem paired_cases (t : Text) :
    Paired t ∨ (∃ x y, Paired x ∧ t = x ++ '"' :: y) ∨ ∃ x, Paired x ∧ t = x ++ ['\\'] := by
  match t with
  | [] => exact .inl .nil
  | c :: t =>
      cases single : isEscaped c with
      | false =>
          rcases paired_cases t with whole | ⟨x, y, start, rfl⟩ | ⟨x, start, rfl⟩
          · exact .inl (.plain single whole)
          · exact .inr (.inl ⟨c :: x, y, .plain single start, rfl⟩)
          · exact .inr (.inr ⟨c :: x, .plain single start, rfl⟩)
      | true =>
          simp only [isEscaped, Bool.or_eq_true, beq_iff_eq] at single
          rcases single with rfl | rfl
          · match t with
            | [] => exact .inr (.inr ⟨[], .nil, rfl⟩)
            | d :: t =>
                rcases paired_cases t with whole | ⟨x, y, start, rfl⟩ | ⟨x, start, rfl⟩
                · exact .inl (.pair d whole)
                · exact .inr (.inl ⟨'\\' :: d :: x, y, .pair d start, rfl⟩)
                · exact .inr (.inr ⟨'\\' :: d :: x, .pair d start, rfl⟩)
          · exact .inr (.inl ⟨[], t, .nil, rfl⟩)

theorem not_paired_mark {t : Text} : ¬Paired ('"' :: t) := by
  intro h
  cases h with
  | plain single _ => cases single

namespace Paired

variable {c : Char} {t : Text}

theorem of_plain (h : Paired (c :: t)) (single : isEscaped c = false) : Paired t := by
  cases h with
  | pair _ _ => cases single
  | plain _ h => exact h

theorem of_slash (h : Paired ('\\' :: t)) : ∃ c u, t = c :: u ∧ Paired u := by
  cases h with
  | pair c h => exact ⟨c, _, rfl, h⟩
  | plain single _ => cases single

end Paired

end Quoting

namespace Within

open Escape

variable {t : Text}

theorem step_inside_double {c : Char} (h : isEscaped c = false) :
    (inside .double).step true c = inside .double := by
  simp only [isEscaped, Bool.or_eq_false_iff, beq_eq_false_iff_ne] at h
  rw [step_inside (m := .double) h.2, if_neg h.1]

/-- Behind such a text a scan is between the quotes still. -/
theorem after_paired (h : Quoting.Paired t) : (inside .double).after t = inside .double := by
  induction h with
  | nil => rfl
  | pair c _ ih => exact ih
  | plain single _ ih => rw [after_cons, step_inside_double single, ih]

theorem stays_paired (h : Quoting.Paired t) : (inside .double).Stays t := by
  induction h with
  | nil => trivial
  | pair c _ ih => exact ⟨by simp, by simp [step], ih⟩
  | plain single _ ih => exact ⟨by simp, by rwa [step_inside_double single]⟩

theorem after_forDouble (t : Text) : (inside .double).after (forDouble t) = inside .double :=
  after_paired (Quoting.paired_forDouble t)

theorem stays_forDouble (t : Text) : (inside .double).Stays (forDouble t) :=
  stays_paired (Quoting.paired_forDouble t)

end Within

namespace Quoting

open Escape

variable {t : Text}

theorem between_paired (h : Paired t) : Between .double t := by
  induction h with
  | nil => exact fun _ => rfl
  | @pair c t _ ih =>
      intro held
      have pair : Lexer.Scan.feed ⟨.quoted .double, held⟩ ['\\', c] =
          ([], ⟨.quoted .double, c :: '\\' :: held⟩) := rfl
      have split : '\\' :: c :: t = ['\\', c] ++ t := rfl
      rw [split, Lexer.Scan.feed_append, pair, ih]
      simp
  | @plain c t single _ ih =>
      intro held
      simp only [isEscaped, Bool.or_eq_false_iff, beq_eq_false_iff_ne] at single
      have step : Lexer.Scan.step ⟨.quoted .double, held⟩ c =
          ([], ⟨.quoted .double, c :: held⟩) := by
        simp [Lexer.Scan.step, Lexer.Scan.stepQuoted, Lexer.Scan.hold, QuoteMark.char, single]
      rw [Lexer.Scan.feed_cons, step, ih]
      simp

theorem passed_paired (h : Paired t) : Lexer.Scan.Passed (between .double t) :=
  Lexer.Scan.passed_between (Within.stays_paired h) (Within.after_paired h)

/-! ### Every character escaped -/

theorem inDoubleQuotes_eq (t : Text) : inDoubleQuotes t = between .double (forDouble t) := rfl

theorem unquote_inDoubleQuotes (t : Text) : unquote (inDoubleQuotes t) = t := by
  have quotes : remove .all '"' (forDouble t) = addAll '\\' t := remove_add .all '"' _
  have slashes : remove .all '\\' (addAll '\\' t) = t := remove_add .all '\\' t
  rw [unquote, inDoubleQuotes_eq, unquoteWith_between]
  change remove .all '\\' (remove .all '"' (forDouble t)) = t
  rw [quotes, slashes]

theorem lexes_inDoubleQuotes {levels : Nat} (t : Text) :
    Lexes levels (inDoubleQuotes t) [.quote (inDoubleQuotes t)] :=
  .of_feed (Lexer.Scan.feed_between (between_paired (paired_forDouble t)) [])

theorem tight_inDoubleQuotes (t : Text) : (inDoubleQuotes t).Tight :=
  tight_between .double (forDouble t)

theorem passed_inDoubleQuotes (t : Text) : Lexer.Scan.Passed (inDoubleQuotes t) :=
  passed_paired (paired_forDouble t)

end Quoting

end LogQuery
