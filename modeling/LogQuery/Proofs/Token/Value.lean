import LogQuery.Proofs.Quoting.Enclosed
import LogQuery.Proofs.Token.Conservation

/-!
# The values that tokens stand for

A value is taken out of a token: the word or field as it is, what a quote encloses without its
escapes, or a value inside a bracket. Whatever is taken, its characters are characters of the
text, in their order, and the marks of a quote, the callee and the delimiters of a bracket and
the signs that open comments are not among them.
-/

namespace LogQuery

theorem Text.sublist_trim (t : Text) : t.trim.Sublist t := by
  obtain ⟨before, after, split, -, -⟩ := exists_trim t
  conv_rhs => rw [split]
  exact (List.sublist_append_right _ _).trans (List.sublist_append_left _ _)

namespace Lexer

open Quoting (between)

variable {s : Scan} {c : Char} {t u v : Text} {l : Lexeme} {levels : Nat}

/-- What a value can be taken from in the lexeme is a sublist of the text. -/
inductive Lexeme.Holds (t : Text) : Lexeme → Prop
  | quote {m : QuoteMark} {v : Text} (h : v.Sublist t) : Holds t (.quote (between m v))
  | word {v : Text} (h : v.Sublist t) : Holds t (.word v)
  | field {v : Text} (h : v.Sublist t) : Holds t (.field v)
  | bracket {callee raw : Text} {closed : Bool} (h : (interior raw closed).Sublist t) :
      Holds t (.bracket callee raw closed)
  | comment {v : Text} : Holds t (.comment v)

theorem Lexeme.Holds.mono (h : l.Holds t) (sub : t.Sublist u) : l.Holds u := by
  cases h with
  | quote h => exact .quote (h.trans sub)
  | word h => exact .word (h.trans sub)
  | field h => exact .field (h.trans sub)
  | bracket h => exact .bracket (h.trans sub)
  | comment => exact .comment

namespace Scan

/-- Of what a scan holds back, the part that a value can be taken from later. -/
inductive Keeps : Scan → Text → Prop
  | plain (held : List Char) : Keeps ⟨.plain, held⟩ held.reverse
  | escaped (held : List Char) : Keeps ⟨.escaped, held⟩ held.reverse
  | quoted {m : QuoteMark} {held : List Char} {u : Text} (h : held.reverse = m.char :: u) :
      Keeps ⟨.quoted m, held⟩ u
  | quotedEscaped {m : QuoteMark} {held : List Char} {u : Text} (h : held.reverse = m.char :: u) :
      Keeps ⟨.quotedEscaped m, held⟩ u
  | comment (held : List Char) : Keeps ⟨.comment, held⟩ []
  | bracket {depth : Nat} {within : Within} {held : List Char} {callee u : Text} {o : Char}
      (h : held.reverse = callee ++ o :: u) (clean : ∀ c ∈ callee, isOpener c = false)
      (opener : isOpener o = true) : Keeps ⟨.bracket depth within, held⟩ u

theorem keeps_start : start.Keeps [] := .plain []

/-- A step whose lexemes hold nothing but what was kept and its character, and that keeps
nothing else. -/
def Passes (u : Text) (c : Char) (result : List Lexeme × Scan) : Prop :=
  (∀ l ∈ result.1, l.Holds (u ++ [c])) ∧ ∃ k, result.2.Keeps k ∧ k.Sublist (u ++ [c])

theorem holds_of_mem_word (h : l ∈ s.word) : l.Holds s.buffer := by
  rw [word] at h
  split at h
  · contradiction
  · rw [List.mem_singleton.mp h]
    exact .word (Text.sublist_trim _)

theorem holds_of_mem_comment (h : l ∈ s.comment) : l.Holds t := by
  rw [comment] at h
  split at h
  · contradiction
  · rw [List.mem_singleton.mp h]
    exact .comment

/-- The characters behind the callee and the opening character of a bracket. -/
theorem holds_bracket {callee : Text} {o : Char} {held : List Char} {closed : Bool}
    (h : held.reverse = callee ++ o :: u) (clean : ∀ c ∈ callee, isOpener c = false)
    (opener : isOpener o = true) (inside : (Lexeme.interior (o :: u) closed).Sublist t) :
    (bracket ⟨.plain, held⟩ closed).Holds t := by
  rw [bracket_eq h clean opener]
  exact .bracket inside

/-- The first opening character of a text that ends in one. -/
theorem exists_opener (hc : isOpener c = true) (t : Text) : ∃ callee o u,
    t ++ [c] = callee ++ o :: u ∧ (∀ d ∈ callee, isOpener d = false) ∧ isOpener o = true := by
  induction t with
  | nil => exact ⟨[], c, [], rfl, by simp, hc⟩
  | cons d t ih =>
      cases opener : isOpener d with
      | true => exact ⟨[], d, t ++ [c], rfl, by simp, opener⟩
      | false =>
          obtain ⟨callee, o, u, split, clean, ho⟩ := ih
          exact ⟨d :: callee, o, u, by simp [split], by simpa [opener] using clean, ho⟩

theorem passes_stepPlain (held : List Char) (c : Char) :
    Passes held.reverse c (stepPlain ⟨.plain, held⟩ c) := by
  have kept {k : Text} (h : k.Sublist [c]) : k.Sublist (held.reverse ++ [c]) :=
    h.trans (List.sublist_append_right _ _)
  have word : ∀ l ∈ Scan.word ⟨.plain, held⟩, l.Holds (held.reverse ++ [c]) :=
    fun l hl => (holds_of_mem_word hl).mono (List.sublist_append_left _ _)
  have fresh : ∃ k, start.Keeps k ∧ k.Sublist (held.reverse ++ [c]) :=
    ⟨[], keeps_start, List.nil_sublist _⟩
  have hold (mode : Mode) (h : Keeps ⟨mode, c :: held⟩ (c :: held).reverse) :
      ∃ k, Keeps ⟨mode, c :: held⟩ k ∧ k.Sublist (held.reverse ++ [c]) :=
    ⟨_, h, by rw [List.reverse_cons]⟩
  rw [stepPlain]
  split
  · next m mark =>
    obtain rfl := QuoteMark.ofChar?_eq_some_iff.mp mark
    exact ⟨word, [], .quoted rfl, List.nil_sublist _⟩
  split_ifs with slash hash colon opener minus separator space
  · exact ⟨by simp, hold .escaped (.escaped _)⟩
  · exact ⟨word, [], .comment [], List.nil_sublist _⟩
  · refine ⟨?_, fresh⟩
    simpa [buffer] using Lexeme.Holds.field (List.sublist_append_left held.reverse [c])
  · -- the bracket opens at the first opening character held back, which may be an escaped one
    obtain ⟨callee, o, u, split, clean, first⟩ := exists_opener opener held.reverse
    refine ⟨by simp, u, .bracket ((List.reverse_cons).trans split) clean first, ?_⟩
    rw [split]
    exact (List.sublist_cons_self o u).trans (List.sublist_append_right _ _)
  · obtain ⟨minus, -⟩ := Bool.and_eq_true_iff.mp minus
    obtain rfl := eq_of_beq minus
    refine ⟨?_, fresh⟩
    simpa using Lexeme.Holds.word (kept (.refl _))
  · exact ⟨by simpa using word, fresh⟩
  · refine ⟨fun l hl => ?_, fresh⟩
    rcases List.mem_append.mp hl with before | here
    · exact word l before
    · rw [List.mem_singleton.mp here]
      exact .word (kept (.refl _))
  · exact ⟨by simp, hold .plain (.plain _)⟩

theorem passes_stepQuoted {m : QuoteMark} {held : List Char} (h : held.reverse = m.char :: u)
    (mode : Mode) (c : Char) : Passes u c (stepQuoted ⟨mode, held⟩ m c) := by
  have longer : (c :: held).reverse = m.char :: (u ++ [c]) := by
    rw [List.reverse_cons, h, List.cons_append]
  rw [stepQuoted]
  split_ifs with closing slash
  · obtain rfl := eq_of_beq closing
    refine ⟨?_, [], keeps_start, List.nil_sublist _⟩
    rw [hold, buffer, longer]
    simpa [between] using Lexeme.Holds.quote (m := m) (List.sublist_append_left u [m.char])
  · exact ⟨by simp, _, .quotedEscaped longer, .refl _⟩
  · exact ⟨by simp, _, .quoted longer, .refl _⟩

theorem passes_stepBracket {callee : Text} {o : Char} {held : List Char}
    (h : held.reverse = callee ++ o :: u) (clean : ∀ c ∈ callee, isOpener c = false)
    (opener : isOpener o = true) (mode : Mode) (depth : Nat) (within : Within) (c : Char) :
    Passes u c (stepBracket ⟨mode, held⟩ depth within c) := by
  have longer : (c :: held).reverse = callee ++ o :: (u ++ [c]) := by
    rw [List.reverse_cons, h, List.append_assoc, List.cons_append]
  have held' (depth : Nat) (within : Within) :
      Passes u c ([], ⟨.bracket depth within, c :: held⟩) :=
    ⟨by simp, _, .bracket longer clean opener, .refl _⟩
  unfold stepBracket
  split_ifs
  · cases depth with
    | zero =>
        refine ⟨?_, [], keeps_start, List.nil_sublist _⟩
        have inside : (Lexeme.interior (o :: (u ++ [c])) true).Sublist (u ++ [c]) := by
          rw [Lexeme.interior, if_pos rfl]
          exact List.dropLast_sublist _
        simpa [hold] using holds_bracket longer clean opener inside
    | succ depth => exact held' depth .outside
  · exact held' (depth + 1) .outside
  · exact held' depth _

theorem Keeps.step (h : s.Keeps u) (c : Char) : Passes u c (s.step c) := by
  cases h with
  | plain held => exact passes_stepPlain held c
  | escaped held => exact ⟨by simp [Scan.step], _, .plain _, by simp⟩
  | quoted h => exact passes_stepQuoted h _ c
  | quotedEscaped h =>
      refine ⟨by simp [Scan.step], u ++ [c], .quoted ?_, .refl _⟩
      rw [List.reverse_cons, h, List.cons_append]
  | comment held =>
      rw [Scan.step]
      dsimp only
      split_ifs
      · exact ⟨fun l hl => holds_of_mem_comment hl, [], keeps_start, List.nil_sublist _⟩
      · exact ⟨by simp, [], .comment _, List.nil_sublist _⟩
  | bracket h clean opener => exact passes_stepBracket h clean opener _ _ _ c

theorem Keeps.finish (h : s.Keeps u) (hl : l ∈ s.finish) : l.Holds u := by
  cases h with
  | plain held => exact holds_of_mem_word hl
  | escaped held => exact holds_of_mem_word hl
  | @quoted m held u h =>
      rw [Scan.finish, List.mem_singleton] at hl
      rw [hl, hold, buffer, List.reverse_cons, h, List.cons_append]
      exact .quote (.refl u)
  | @quotedEscaped m held u h =>
      rw [Scan.finish, List.mem_singleton] at hl
      rw [hl, hold, buffer, List.reverse_cons, h, List.cons_append]
      exact .quote (.refl u)
  | comment held => exact holds_of_mem_comment hl
  | bracket h clean opener =>
      rw [Scan.finish, List.mem_singleton] at hl
      rw [hl]
      exact holds_bracket h clean opener (.refl _)

/-- The lexemes of the rest of a text hold what the scan keeps and the rest, nothing else. -/
theorem Keeps.run (h : s.Keeps u) (t : Text) (hl : l ∈ s.run t) : l.Holds (u ++ t) := by
  induction t generalizing s u with
  | nil =>
      rw [List.append_nil]
      exact h.finish hl
  | cons c t ih =>
      obtain ⟨here, k, keeps, sub⟩ := h.step c
      have split : u ++ c :: t = u ++ [c] ++ t := by simp
      rw [Scan.run, List.mem_append] at hl
      rw [split]
      rcases hl with now | later
      · exact (here l now).mono (List.sublist_append_left _ _)
      · exact (ih keeps later).mono (sub.append_right t)

end Scan

end Lexer

/-- The texts that a filter may take from a token for its value. -/
def Token.values (s : Scope) : Token → List Text
  | quote v => [s.unquote v]
  | word v | field v => [v]
  | bracket _ _ items => (items.filter isValue).map s.value
  | comment _ => []

namespace Lexer

open Quoting (between)

variable {s : Scope} {t v : Text} {l : Lexeme}

/-- Removing marks and escapes leaves characters out. -/
theorem sublist_unquote {m : QuoteMark} (h : v.Sublist t) :
    (s.unquote (between m v)).Sublist t := by
  rw [Scope.unquote, Quoting.unquoteWith_between]
  exact (Quoting.unescape_sublist s.escape m v).trans h

theorem Lexeme.Holds.value (h : l.Holds t) (levels : Nat)
    (value : (l.toToken (tokensWithin levels)).isValue = true) :
    (s.value (l.toToken (tokensWithin levels))).Sublist t := by
  cases h with
  | quote h => exact sublist_unquote h
  | word h => exact h
  | field => contradiction
  | bracket => contradiction
  | comment => contradiction

/-- A value of a token is a sublist of what its lexeme holds. -/
theorem Lexeme.Holds.values (h : l.Holds t) (levels : Nat)
    (hv : v ∈ (l.toToken (tokensWithin levels)).values s) : v.Sublist t := by
  cases h with
  | quote h => exact List.mem_singleton.mp hv ▸ sublist_unquote h
  | word h => exact List.mem_singleton.mp hv ▸ h
  | field h => exact List.mem_singleton.mp hv ▸ h
  | bracket h =>
      obtain ⟨item, mem, rfl⟩ := List.mem_map.mp hv
      obtain ⟨mem, value⟩ := List.mem_filter.mp mem
      cases levels with
      | zero => contradiction
      | succ levels =>
          obtain ⟨k, hk, rfl⟩ := List.mem_map.mp mem
          have inside := Scan.keeps_start.run _ hk
          exact (inside.value levels value).trans ((Text.sublist_trim _).trans h)
  | comment => contradiction

/-- A value of a text is taken from one of its lexemes. -/
theorem exists_lexeme_of_mem_values {k : Token} (hk : k ∈ tokenize t) (hv : v ∈ k.values s) :
    ∃ l ∈ lexemes t, ∀ u, l.Holds u → v.Sublist u := by
  obtain ⟨l, hl, rfl⟩ := List.mem_map.mp hk
  exact ⟨l, hl, fun u holds => holds.values _ hv⟩

end Lexer

end LogQuery
