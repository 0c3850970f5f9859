import LogQuery.Token.Reader

/-!
# What a reader can result in

A reader takes what tokens there are and never fails, so a property of its result can hold
whatever the tokens were. Such properties are put together along the reader: the last step of a
sequence decides, a choice needs both of its branches, and a loop keeps what each of its rounds
keeps, however many there are.
-/

namespace LogQuery.Reader

variable {α β σ : Type}

/-- The state that a round leaves, whether or not the loop goes on. -/
def Round.state : Round σ → σ
  | more s | done s => s

/-- Whatever the tokens, the result has the property. -/
def Ensures (r : Reader α) (P : α → Prop) : Prop := ∀ ts, P (r.run ts).1

namespace Ensures

variable {P : α → Prop} {Q : β → Prop} {r r' : Reader α} {f : α → Reader β}

theorem mono {P' : α → Prop} (h : Ensures r P) (weaker : ∀ a, P a → P' a) : Ensures r P' :=
  fun ts => weaker _ (h ts)

theorem pure {a : α} (h : P a) : Ensures (Pure.pure a) P := fun _ => h

theorem bind (hr : Ensures r P) (hf : ∀ a, P a → Ensures (f a) Q) : Ensures (r >>= f) Q :=
  fun ts => hf _ (hr ts) _

/-- A step about which nothing is known. -/
theorem step (hf : ∀ a, Ensures (f a) Q) : Ensures (r >>= f) Q := fun _ => hf _ _

theorem ite {c : Prop} [Decidable c] (hr : Ensures r P) (hr' : Ensures r' P) :
    Ensures (if c then r else r') P := by
  split
  · exact hr
  · exact hr'

section Loops

variable {I : σ → Prop} {round : σ → Reader (Round σ)}

theorem rounds (keeps : ∀ s, I s → Ensures (round s) fun next => I next.state) (n : Nat) {s : σ}
    (hs : I s) : Ensures (rounds round n s) I := by
  induction n generalizing s with
  | zero => exact .pure hs
  | succ n ih =>
      refine bind (keeps s hs) fun next hnext => ?_
      cases next with
      | more s' => exact ih hnext
      | done s' => exact .pure hnext

/-- What every round keeps, the loop keeps. -/
theorem loop (keeps : ∀ s, I s → Ensures (round s) fun next => I next.state) {s : σ} (hs : I s) :
    Ensures (loop round s) I :=
  step fun _ => rounds keeps _ hs

end Loops

end Ensures

/-! ### Tokens of a kind

Some results are as good as the tokens they come from. What a reader leaves is a suffix of what
it was given, so all steps of a sequence are given tokens of the same kind. -/

/-- From tokens that are all of the kind the result has the property. -/
def From (C : Token → Prop) (r : Reader α) (P : α → Prop) : Prop :=
  ∀ ts, (∀ t ∈ ts, C t) → P (r.run ts).1

namespace From

variable {C : Token → Prop} {P : α → Prop} {Q : β → Prop} {r r' : Reader α} {f : α → Reader β}

theorem of_ensures (h : r.Ensures P) : From C r P := fun ts _ => h ts

theorem pure {a : α} (h : P a) : From C (Pure.pure a) P := of_ensures (.pure h)

/-- What the first step leaves are some of the same tokens. -/
theorem bind (hr : From C r P) (hf : ∀ a, P a → From C (f a) Q) : From C (r >>= f) Q :=
  fun ts h => hf _ (hr ts h) _ fun t ht => h t ((r.suffix ts).subset ht)

/-- A step about which nothing is known. -/
theorem step (hf : ∀ a, From C (f a) Q) : From C (r >>= f) Q :=
  bind (P := fun _ => True) (fun _ _ => trivial) fun a _ => hf a

theorem ite {c : Prop} [Decidable c] (hr : From C r P) (hr' : From C r' P) :
    From C (if c then r else r') P := by
  split
  · exact hr
  · exact hr'

/-- What every round keeps, the loop keeps. -/
theorem loop {I : σ → Prop} {round : σ → Reader (Round σ)}
    (keeps : ∀ s, I s → From C (round s) fun next => I next.state) {s : σ} (hs : I s) :
    From C (loop round s) I := by
  refine step fun ts => ?_
  induction ts.length + 1 generalizing s with
  | zero => exact pure hs
  | succ n ih =>
      refine bind (keeps s hs) fun next hnext => ?_
      cases next with
      | more s' => exact ih hnext
      | done s' => exact pure hnext

end From

end LogQuery.Reader
