import LogQuery.Proofs.Token.Capture
import LogQuery.Token.Reader

/-!
# Lists of quoted phrases

A list of phrases is written in quotes, with commas between. Inside a bracket it is first captured
and then read. The capture passes over all of it unless some phrase has its closing mark escaped,
and then it stays in a quote to the end. Whatever the capture makes of the list, the tokens that
are read from a part of it stand for no more than that part: values have no closing characters
other than those of the text.
-/

namespace LogQuery

namespace Escape

variable {c : Char}

theorem addAll_append_all (c : Char) (t u : Text) :
    addAll c (t ++ u) = addAll c t ++ addAll c u := by
  induction t with
  | nil => rfl
  | cons d t ih =>
      rw [List.cons_append, addAll, addAll, ih]
      split <;> rfl

/-- Where every backslash is doubled, all of them are paired off. -/
theorem endsInEscape_addAll (t : Text) : (addAll '\\' t).endsInEscape = false := by
  induction t using List.reverseRecOn with
  | nil => rfl
  | append_singleton t d ih =>
      rw [addAll_append_all]
      by_cases slash : d = '\\'
      · subst slash
        have pair : addAll '\\' ['\\'] = ['\\'] ++ ['\\'] := rfl
        rw [pair, ← List.append_assoc, Text.endsInEscape_concat_slash,
          Text.endsInEscape_concat_slash, ih]
        rfl
      · have single : addAll '\\' [d] = [d] := if_neg slash
        rw [single, Text.endsInEscape_concat slash]

end Escape

namespace Quoting

open Lexer Within

variable {v : Text} {vs : List Text}

/-- In quotes, the text ends in a backslash that a capture takes for an escape of the mark. -/
def EscapesMark (v : Text) : Prop := '`' ∉ v ∧ v.endsInEscape = true

instance (v : Text) : Decidable (EscapesMark v) :=
  inferInstanceAs (Decidable ('`' ∉ v ∧ v.endsInEscape = true))

/-- The marks around a text, and what stands between them. -/
theorem exists_marks (h : LacksMark v) : ∃ m u, enclose .all v = between m u ∧ m.char ∉ u ∧
    (u.endsInEscape = true ↔ EscapesMark v) := by
  rcases enclose_cases h with ⟨tick, enclosed⟩ | ⟨tick, m, hm, absent, enclosed⟩
  · exact ⟨.backtick, v, enclosed, tick, by simp [EscapesMark, tick]⟩
  · refine ⟨m, _, enclosed, Escape.not_mem_add .all ?_ absent, ?_⟩
    · cases m <;> decide
    · simp [Escape.endsInEscape_addAll, EscapesMark, tick]

/-! ### Quotes with commas between -/

/-- The tokens of quotes with commas between. -/
def quoteTokens : List Text → List Token
  | [] => []
  | [q] => [.quote q]
  | q :: qs => .quote q :: .word [','] :: quoteTokens qs

section Join

variable {qs : List Text}

theorem lexes_join {levels : Nat} (h : ∀ q ∈ qs, Lexes levels q [.quote q]) :
    Lexes levels (Text.join ", " qs) (quoteTokens qs) := by
  fun_induction quoteTokens qs with
  | case1 => exact .nil
  | case2 q => exact h q (by simp)
  | case3 q qs several ih =>
      have separator : Lexes levels [','] [.word [',']] := .separator (by simp)
      have whole := (h q (by simp)).append ((separator.append .space).append
        (ih fun x hx => h x (by simp [hx])))
      obtain ⟨r, rs, rfl⟩ := List.exists_cons_of_ne_nil several
      simpa [Text.join] using whole

theorem passed_join (h : ∀ q ∈ qs, Scan.Passed q) : Scan.Passed (Text.join ", " qs) :=
  Text.join_of (fun _ _ => rfl) .append (Scan.passed_inert (by decide)) h

/-- Without the commas, the quotes are left. -/
theorem filter_quoteTokens {p : Token → Bool} (quote : ∀ q ∈ qs, p (.quote q) = true)
    (comma : p (.word [',']) = false) : (quoteTokens qs).filter p = qs.map .quote := by
  fun_induction quoteTokens qs with
  | case1 => rfl
  | case2 q => simp [quote q (by simp)]
  | case3 q qs several ih =>
      rw [List.filter_cons_of_pos (quote q (by simp)), List.filter_cons_of_neg (by simp [comma]),
        ih fun x hx => quote x (by simp [hx])]
      rfl

end Join

/-- Phrases in quotes, with commas between. -/
def phraseList (vs : List Text) : Text := Text.join ", " (vs.map (enclose .all))

/-- The tokens of phrases in quotes. -/
def phraseTokens : List Text → List Token
  | [] => []
  | [v] => [.quote (enclose .all v)]
  | v :: vs => .quote (enclose .all v) :: .word [','] :: phraseTokens vs

@[simp] theorem phraseList_singleton (v : Text) : phraseList [v] = enclose .all v := rfl

theorem phraseList_cons_cons (v w : Text) (vs : List Text) :
    phraseList (v :: w :: vs) = enclose .all v ++ ", " ++ phraseList (w :: vs) := rfl

/-! ### Capturing a list -/

/-- A list of phrases that starts inside a quote ends in one. -/
theorem after_phraseList_ne {w : Within} (settled : w.Settled) (quoted : w ≠ .outside)
    (lacks : ∀ v ∈ vs, LacksMark v) : w.after (phraseList vs) ≠ .outside := by
  induction vs generalizing w with
  | nil => exact quoted
  | cons v vs ih =>
      obtain ⟨m, u, enclosed, absent, -⟩ := exists_marks (lacks v (by simp))
      have first : w.after (enclose .all v) ≠ .outside := by
        rw [enclosed]
        cases w with
        | outside => exact absurd rfl quoted
        | inside d => exact after_between_inside d absent
        | escaped d => exact absurd rfl (settled d)
      have settled : (w.after (enclose .all v)).Settled := by
        rw [enclosed]
        exact after_between_settled w m u
      cases vs with
      | nil => exact first
      | cons v' vs =>
          rw [phraseList_cons_cons, after_append, after_append, after_separator settled]
          exact ih settled first fun x hx => lacks x (by simp [hx])

theorem after_phraseList_iff (lacks : ∀ v ∈ vs, LacksMark v) :
    Within.outside.after (phraseList vs) = .outside ↔ ∀ v ∈ vs, ¬EscapesMark v := by
  induction vs with
  | nil => simp [phraseList, Text.join]
  | cons v vs ih =>
      obtain ⟨m, u, enclosed, absent, escapes⟩ := exists_marks (lacks v (by simp))
      have first : Within.outside.after (enclose .all v) = .outside ↔ ¬EscapesMark v := by
        rw [enclosed, after_between_outside absent, ← escapes, Bool.not_eq_true]
      cases vs with
      | nil => simpa using first
      | cons v' vs =>
          have settled : (Within.outside.after (enclose .all v)).Settled := by
            rw [enclosed]
            exact after_between_settled _ m u
          have lacks' : ∀ x ∈ v' :: vs, LacksMark x := fun x hx => lacks x (by simp [hx])
          rw [phraseList_cons_cons, after_append, after_append, after_separator settled,
            List.forall_mem_cons, ← first, ← ih lacks']
          by_cases left : Within.outside.after (enclose .all v) = .outside
          · rw [left]
            simp
          · simp [left, after_phraseList_ne settled left lacks']

theorem passed_phraseList (lacks : ∀ v ∈ vs, LacksMark v) (h : ∀ v ∈ vs, ¬EscapesMark v) :
    Scan.Passed (phraseList vs) := by
  refine passed_join fun q hq => ?_
  obtain ⟨v, hv, rfl⟩ := List.mem_map.mp hq
  obtain ⟨m, u, enclosed, absent, escapes⟩ := exists_marks (lacks v hv)
  rw [enclosed]
  refine Scan.passed_between_of_not_mem absent ?_
  rw [Bool.eq_false_iff]
  exact fun escaped => h v hv (escapes.mp escaped)

/-! ### Reading a list -/

theorem phraseTokens_eq (vs : List Text) :
    phraseTokens vs = quoteTokens (vs.map (enclose .all)) := by
  fun_induction phraseTokens vs with
  | case1 => rfl
  | case2 v => rfl
  | case3 v vs several ih =>
      rw [ih]
      obtain ⟨w, ws, rfl⟩ := List.exists_cons_of_ne_nil several
      rfl

theorem lexes_phraseList {levels : Nat} (lacks : ∀ v ∈ vs, LacksMark v) :
    Lexes levels (phraseList vs) (phraseTokens vs) := by
  rw [phraseTokens_eq]
  refine lexes_join fun q hq => ?_
  obtain ⟨v, hv, rfl⟩ := List.mem_map.mp hq
  exact .quote (lacks v hv)

theorem tight_phraseList (hne : vs ≠ []) : (phraseList vs).Tight := by
  refine .join (fun q hq => ?_) (by simpa using hne) _
  obtain ⟨v, hv, rfl⟩ := List.mem_map.mp hq
  exact tight_enclose v

theorem listedValues_phraseTokens {s : Scope} (hs : s.escape = .all)
    (vs : List Text) : Reader.listedValues s (phraseTokens vs) = vs := by
  have value (v : Text) : s.value (.quote (enclose .all v)) = v := by
    rw [Scope.value, hs]
    exact unquoteWith_enclose .all v
  rw [Reader.listedValues, phraseTokens_eq, filter_quoteTokens (fun _ _ => rfl) rfl,
    List.map_map, List.map_map]
  exact (List.map_congr_left fun v _ => value v).trans (List.map_id vs)

end Quoting

/-! ### Values and closing characters -/

namespace Text

/-- The number of closing characters in a text. -/
def closers (t : Text) : Nat := t.countP isCloser

@[simp] theorem closers_append (t u : Text) : closers (t ++ u) = closers t + closers u :=
  List.countP_append

theorem closers_le {t u : Text} (h : List.Sublist t u) : closers t ≤ closers u := h.countP_le

theorem visible_sublist (t : Text) : List.Sublist t.visible t := List.filter_sublist

theorem closers_visible (t : Text) : closers t.visible = closers t := by
  rw [closers, visible, List.countP_filter]
  apply List.countP_congr
  intro c _
  have visible (closer : isCloser c = true) : isBlank c = false := by
    rw [Bool.eq_false_iff]
    intro blank
    rw [isCloser_of_isBlank blank] at closer
    contradiction
  simpa using visible

end Text

namespace Quoting

open Lexer

variable {v : Text} {vs : List Text}

theorem closers_between (m : QuoteMark) (t : Text) : (between m t).closers = t.closers := by
  cases m <;> simp [between, Text.closers, QuoteMark.char, isCloser]

theorem closers_enclose (h : LacksMark v) : (enclose .all v).closers = v.closers := by
  rcases enclose_cases h with ⟨-, enclosed⟩ | ⟨-, m, -, -, enclosed⟩
  · rw [enclosed, closers_between]
  · rw [enclosed, closers_between]
    exact Escape.countP_add .all rfl '\\' v

theorem closers_phraseList (lacks : ∀ v ∈ vs, LacksMark v) :
    (phraseList vs).closers = Text.closers vs.flatten := by
  induction vs with
  | nil => rfl
  | cons v vs ih =>
      have first := closers_enclose (lacks v (by simp))
      cases vs with
      | nil => simpa using first
      | cons v' vs =>
          have rest := ih fun x hx => lacks x (by simp [hx])
          have separator : Text.closers ", " = 0 := rfl
          have whole : Text.closers (v :: v' :: vs).flatten =
              v.closers + Text.closers (v' :: vs).flatten := Text.closers_append _ _
          rw [phraseList_cons_cons, Text.closers_append, Text.closers_append, first, rest,
            separator, whole, Nat.add_zero]

/-- Taking marks and escapes away only leaves characters out. -/
theorem unquoteWith_sublist (t : Text) (mode : EscapeMode) :
    List.Sublist (unquoteWith t mode) t := by
  cases t with
  | nil => exact .slnil
  | cons c rest =>
      rw [unquoteWith]
      split
      · exact .refl _
      · next m _ =>
        split
        · exact .cons _ ((unescape_sublist mode m _).trans (List.dropLast_sublist _))
        · exact .refl _

end Quoting

namespace Token

theorem valueWith_sublist (t : Token) (mode : EscapeMode) :
    List.Sublist (t.valueWith mode) t.spelling := by
  cases t with
  | quote v => exact Quoting.unquoteWith_sublist v mode
  | word v => exact .refl _
  | _ => exact List.nil_sublist _

/-- The values listed among tokens are parts of what the tokens spell, in their order. -/
theorem listedValues_sublist (s : Scope) (ts : List Token) :
    List.Sublist (Reader.listedValues s ts).flatten (spellings ts) := by
  induction ts with
  | nil => exact .slnil
  | cons t ts ih =>
      have first := valueWith_sublist t s.escape
      rw [Reader.listedValues, List.filter_cons]
      split
      · exact first.append ih
      · exact ih.trans (List.sublist_append_right _ _)

end Token

namespace Lexer

theorem Mode.remains_sublist (m : Mode) (t : Text) : List.Sublist (m.remains t) t := by
  have remnant (m : Mode) (c : Char) : List.Sublist (m.remnant c) [c] := by
    by_cases hash : c = '#'
    · subst hash
      cases m with
      | plain => exact List.nil_sublist _
      | _ => exact Text.visible_sublist _
    · rw [Mode.remnant_of_ne hash]
      exact Text.visible_sublist [c]
  induction t generalizing m with
  | nil => exact .slnil
  | cons c t ih => exact (remnant m c).append (ih (m.step c))

/-- The tokens of a text spell no closing characters that the text does not have. -/
theorem closers_spellings_le (levels : Nat) (t : Text) :
    (Token.spellings (tokensWithin (levels + 1) t)).closers ≤ t.closers := by
  have mark : Text.closers ((openQuote? t).toList.map QuoteMark.char) = 0 := by
    cases openQuote? t with
    | none => rfl
    | some m => cases m <;> rfl
  rw [spellings_tokensWithin, ← Text.closers_visible, visible_spellings_lexemes,
    Text.closers_append, mark]
  exact Text.closers_le (Mode.plain.remains_sublist t)

/-- The values listed in a text have no more closing characters than the text. -/
theorem closers_listedValues_le (s : Scope) (levels : Nat) (t : Text) :
    Text.closers (Reader.listedValues s (tokensWithin (levels + 1) t)).flatten ≤ t.closers :=
  (Text.closers_le (Token.listedValues_sublist s _)).trans (closers_spellings_le levels t)

end Lexer

end LogQuery
