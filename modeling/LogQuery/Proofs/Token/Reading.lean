import LogQuery.Token.Reader

/-!
# What readers do to a token list

The primitive readers as equations on `run`, and the loops: a run of a loop is a chain of
rounds, each of which takes a token, up to one that stops. The bound on the number of rounds
never shows in such a chain.
-/

namespace LogQuery

namespace Token

theorem isKeyword_word (v w : Text) : (word v).isKeyword w = v.sameFold w := rfl

end Token

namespace Reader

variable {α σ : Type} {t : Token} {ts : List Token} {w : Text}

@[simp] theorem run_look (ts : List Token) : look.run ts = (ts, ts) := rfl

@[simp] theorem run_peek (ts : List Token) : peek.run ts = (ts.head?, ts) := rfl

@[simp] theorem run_next (ts : List Token) : next.run ts = (ts.head?, ts.tail) := rfl

@[simp] theorem run_skip (n : Nat) (ts : List Token) : (skip n).run ts = ((), ts.drop n) := rfl

@[simp] theorem run_all (ts : List Token) : all.run ts = (ts, []) := rfl

@[simp] theorem run_eatWord_nil (w : Text) : (eatWord w).run [] = (false, []) := rfl

theorem run_eatWord_cons (t : Token) (ts : List Token) (w : Text) :
    (eatWord w).run (t :: ts) = if t.isKeyword w then (true, ts) else (false, t :: ts) := rfl

theorem run_eatWord_of_isKeyword (h : t.isKeyword w = true) :
    (eatWord w).run (t :: ts) = (true, ts) := by
  rw [run_eatWord_cons, if_pos h]

/-- A reader for a word takes nothing from tokens that do not start with the word. -/
theorem run_eatWord_of_head? (h : ∀ t ∈ ts.head?, t.isKeyword w = false) :
    (eatWord w).run ts = (false, ts) := by
  cases ts with
  | nil => rfl
  | cons t ts =>
      have other : t.isKeyword w = false := h t rfl
      rw [run_eatWord_cons, other]
      rfl

/-- Without a colon behind it a token that is none itself names no field. -/
theorem run_takeFieldName_none {s : Scope} (ht : t.field? = none)
    (h : ∀ u ∈ ts.head?, u ≠ .field []) : (takeFieldName s).run (t :: ts) = (none, t :: ts) := by
  rw [takeFieldName, run_bind, run_look]
  dsimp only
  split
  · next heq =>
    obtain ⟨rfl, rfl⟩ := List.cons.inj heq
    contradiction
  · next heq =>
    obtain ⟨rfl, rfl⟩ := List.cons.inj heq
    exact absurd rfl (h _ rfl)
  · next heq =>
    obtain ⟨rfl, rfl⟩ := List.cons.inj heq
    exact absurd rfl (h _ rfl)
  · rfl

theorem run_takeValueD (s : Scope) (d : Text) (h : t.isValue = true)
    (notComma : t.hasText [','] = false) :
    (takeValueD s d).run (t :: ts) = (s.value t, ts) := by
  have taken : (takeValue s).run (t :: ts) = (some (s.value t), ts) := by
    simp [takeValue, h, notComma]
  simp [takeValueD, taken]

/-! ### Loops -/

/-- Rounds that take the state and the tokens from the first pair to the second, the last one
of them being the one that stops. -/
inductive Iterates (step : σ → Reader (Round σ)) : σ → List Token → σ → List Token → Prop
  | done {s s' ts ts'} (h : (step s).run ts = (.done s', ts')) : Iterates step s ts s' ts'
  | more {s s₁ s' ts ts₁ ts'} (h : (step s).run ts = (.more s₁, ts₁))
      (taken : ts₁.length < ts.length) (rest : Iterates step s₁ ts₁ s' ts') :
      Iterates step s ts s' ts'

theorem run_rounds_more {step : σ → Reader (Round σ)} {s s₁ : σ} {ts ts₁ : List Token}
    (h : (step s).run ts = (.more s₁, ts₁)) (n : Nat) :
    (rounds step (n + 1) s).run ts = (rounds step n s₁).run ts₁ := by
  rw [rounds, run_bind, h]

/-- Where every round stops, none is missed. -/
theorem run_rounds_done {step : σ → Reader (Round σ)} {s : σ} {ts : List Token}
    (h : (step s).run ts = (.done s, ts)) (n : Nat) : (rounds step n s).run ts = (s, ts) := by
  cases n with
  | zero => rfl
  | succ n => rw [rounds, run_bind, h, run_pure]

theorem Iterates.run_rounds {step : σ → Reader (Round σ)} {s s' : σ} {ts ts' : List Token}
    (h : Iterates step s ts s' ts') {n : Nat} (hn : ts.length < n) :
    (rounds step n s).run ts = (s', ts') := by
  induction h generalizing n with
  | done h =>
      obtain ⟨m, rfl⟩ := Nat.exists_eq_add_one_of_ne_zero (Nat.ne_of_gt (Nat.zero_lt_of_lt hn))
      rw [rounds, run_bind, h, run_pure]
  | more h taken rest ih =>
      obtain ⟨m, rfl⟩ := Nat.exists_eq_add_one_of_ne_zero (Nat.ne_of_gt (Nat.zero_lt_of_lt hn))
      rw [run_rounds_more h]
      exact ih (by omega)

theorem Iterates.run_loop {step : σ → Reader (Round σ)} {s s' : σ} {ts ts' : List Token}
    (h : Iterates step s ts s' ts') : (loop step s).run ts = (s', ts') := by
  rw [loop, run_bind, run_look]
  exact h.run_rounds (Nat.lt_succ_self _)

end Reader

end LogQuery
