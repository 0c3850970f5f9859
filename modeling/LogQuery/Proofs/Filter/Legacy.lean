import LogQuery.Query.Reader

/-!
# The older form of a value list

A value list in its older form is one pair of an equality sign and a value after another, with
`or` between pairs. Every such list is recognised, and all of its values are read. The test takes
more than that: behind the last pair it passes over an `or` without a pair, alone or with one more
token, and an operand may be a field or a comment. What it passes over is not among the values, so
a list is whole exactly when every three of its tokens, the last two apart, stand for a value.
-/

namespace LogQuery.Filter.Legacy

/-- Pairs of an equality sign and an operand that `p` admits, with `or` between pairs, at the
start of a token list: the operands in order, and the tokens behind the last of them. -/
inductive Chain (p : Token → Bool) : List Token → List Token → List Token → Prop
  | pair {sign operand : Token} (hsign : sign.isWord "=" = true) (hoperand : p operand = true)
      (rest : List Token) : Chain p (sign :: operand :: rest) [operand] rest
  | cons {sign operand joint : Token} {ts os rest : List Token}
      (hsign : sign.isWord "=" = true) (hoperand : p operand = true)
      (hjoint : joint.isKeyword "or" = true) (more : Chain p ts os rest) :
      Chain p (sign :: operand :: joint :: ts) (operand :: os) rest

/-- What is passed over behind the last pair: nothing, or an `or` with at most one more token. -/
inductive IsLeftover : List Token → Prop
  | nil : IsLeftover []
  | joint {joint : Token} {ts : List Token} (hjoint : joint.isKeyword "or" = true)
      (short : ts.length ≤ 1) : IsLeftover (joint :: ts)

/-- A token that can stand as an operand for the test: anything but a bracket. -/
def isOperand (t : Token) : Bool := !t.isBracket

variable {p q : Token → Bool} {ts os rest : List Token}

theorem isOperand_of_isValue {t : Token} (h : t.isValue = true) : isOperand t = true := by
  cases t with
  | bracket => contradiction
  | _ => rfl

namespace Chain

/-- A chain whose operands all satisfy another condition is a chain of that condition. -/
theorem of_forall (h : Chain p ts os rest) (hq : ∀ o ∈ os, q o = true) : Chain q ts os rest := by
  induction h with
  | pair hsign _ rest => exact .pair hsign (hq _ (by simp)) rest
  | cons hsign _ hjoint _ ih =>
      exact .cons hsign (hq _ (by simp)) hjoint (ih fun o ho => hq o (by simp [ho]))

theorem forall_mem (h : Chain p ts os rest) : ∀ o ∈ os, p o = true := by
  induction h with
  | pair _ hoperand _ => simpa using hoperand
  | cons _ hoperand _ _ ih =>
      intro o ho
      rcases List.mem_cons.mp ho with rfl | ho
      · exact hoperand
      · exact ih o ho

/-- Three tokens for each pair, the last one without an `or`. -/
theorem length_add_one (h : Chain p ts os rest) :
    ts.length + 1 = 3 * os.length + rest.length := by
  induction h with
  | pair => simp only [List.length_cons, List.length_nil]; omega
  | cons _ _ _ _ ih => simp only [List.length_cons] at ih ⊢; omega

theorem two_le_length (h : Chain p ts os rest) : 2 ≤ ts.length := by
  cases h <;> simp

end Chain

/-! ### The test -/

theorem isChain_of_length (h : ts.length ≤ 1) : isChain ts = true := by
  match ts with
  | [] => rfl
  | [_] => rfl
  | _ :: _ :: _ => simp at h

theorem isChain_of_leftover (h : Chain isOperand ts os rest) (hrest : IsLeftover rest) :
    isChain ts = true := by
  induction h with
  | @pair sign operand hsign hoperand rest =>
      have noBracket : (!operand.isBracket) = true := hoperand
      cases hrest with
      | nil => simp only [isChain, hsign, noBracket, Bool.and_true]
      | joint hjoint short =>
          simp only [isChain, hsign, noBracket, hjoint, isChain_of_length short, Bool.and_true]
  | @cons sign operand joint ts os rest hsign hoperand hjoint more ih =>
      have noBracket : (!operand.isBracket) = true := hoperand
      simp only [isChain, hsign, noBracket, hjoint, ih hrest, Bool.and_true]

/-- What the test accepts is too short for a pair, or pairs with a leftover. -/
theorem exists_chain : ∀ {ts : List Token}, isChain ts = true →
    ts.length ≤ 1 ∨ ∃ os rest, Chain isOperand ts os rest ∧ IsLeftover rest
  | [], _ => .inl (by simp)
  | [_], _ => .inl (by simp)
  | [sign, operand], h => by
      rw [isChain, Bool.and_true, Bool.and_eq_true] at h
      exact .inr ⟨_, _, .pair h.1 h.2 [], .nil⟩
  | sign :: operand :: joint :: more, h => by
      simp only [isChain, Bool.and_eq_true] at h
      obtain ⟨⟨hsign, hoperand⟩, hjoint, hmore⟩ := h
      right
      rcases exists_chain hmore with short | ⟨os, rest, chain, leftover⟩
      · exact ⟨_, _, .pair hsign hoperand _, .joint hjoint short⟩
      · exact ⟨_, _, .cons hsign hoperand hjoint chain, leftover⟩

/-- The tokens that the test accepts. -/
theorem isMultiExact_iff_exists_chain (ts : List Token) :
    isMultiExact ts = true ↔ ∃ os rest, Chain isOperand ts os rest ∧ IsLeftover rest := by
  rw [isMultiExact, Bool.and_eq_true, decide_eq_true_eq]
  constructor
  · rintro ⟨long, accepted⟩
    apply (exists_chain accepted).resolve_left
    omega
  · rintro ⟨os, rest, chain, leftover⟩
    exact ⟨chain.two_le_length, isChain_of_leftover chain leftover⟩

/-! ### The values -/

theorem values_of_length (h : ts.length ≤ 1) : values ts = [] := by
  match ts with
  | [] => rfl
  | [_] => rfl
  | _ :: _ :: _ => simp at h

/-- Of the operands, those that can stand for a value are read; the leftover is not. -/
theorem values_eq (h : Chain isOperand ts os rest) (hrest : IsLeftover rest) :
    values ts = (os.filter Token.isValue).map Token.value := by
  have filter_cons (o : Token) (os : List Token) :
      ((o :: os).filter Token.isValue).map Token.value =
        (if o.isValue then [o.value] else []) ++ (os.filter Token.isValue).map Token.value := by
    cases value : o.isValue <;> simp [value]
  induction h with
  | @pair sign operand hsign hoperand rest =>
      have noBracket : (!operand.isBracket) = true := hoperand
      rw [filter_cons]
      cases hrest with
      | nil =>
          simp only [values, hsign, noBracket]
          exact (List.append_nil _).symm
      | joint hjoint short =>
          simp only [values, hsign, noBracket, hjoint, values_of_length short]
          rfl
  | @cons sign operand joint ts os rest hsign hoperand hjoint more ih =>
      have noBracket : (!operand.isBracket) = true := hoperand
      rw [filter_cons, ← ih hrest]
      simp only [values, hsign, noBracket, hjoint, Bool.and_true, if_true]

/-! ### Whole lists -/

/-- A value list in its older form, with the operands of its pairs. -/
def IsValueList (ts os : List Token) : Prop := Chain Token.isValue ts os []

namespace IsValueList

theorem chain (h : IsValueList ts os) : Chain isOperand ts os [] :=
  Chain.of_forall h fun o ho => isOperand_of_isValue (Chain.forall_mem h o ho)

theorem values_eq (h : IsValueList ts os) : values ts = os.map Token.value := by
  rw [Legacy.values_eq h.chain .nil, List.filter_eq_self.mpr (Chain.forall_mem h)]

theorem isMultiExact (h : IsValueList ts os) : isMultiExact ts = true :=
  (isMultiExact_iff_exists_chain ts).mpr ⟨os, [], h.chain, .nil⟩

end IsValueList

/-- Nothing is left over and every operand is a value if the values account for all tokens. -/
theorem isValueList_of_length (h : Chain isOperand ts os rest) (hrest : IsLeftover rest)
    (count : ts.length + 1 = 3 * (values ts).length) : IsValueList ts os := by
  have total := h.length_add_one
  have fewer : (os.filter Token.isValue).length ≤ os.length := List.length_filter_le _ _
  rw [values_eq h hrest, List.length_map] at count
  have none : rest = [] := by
    apply List.length_eq_zero_iff.mp
    omega
  subst none
  apply h.of_forall
  apply List.length_filter_eq_length_iff.mp
  rw [List.length_nil] at total
  omega

/-- The test accepts pairs with a leftover. A list is whole exactly when it is accepted and its
values account for all of its tokens; then the `in` list that takes its place holds the values of
all pairs in order. -/
theorem isMultiExact_iff (ts : List Token) :
    (isMultiExact ts = true ↔ ∃ os rest, Chain isOperand ts os rest ∧ IsLeftover rest) ∧
      ((∃ os, IsValueList ts os) ↔
        isMultiExact ts = true ∧ ts.length + 1 = 3 * (values ts).length) ∧
      ∀ os, IsValueList ts os → values ts = os.map Token.value ∧
        ∀ (s : Scope) (raw : Text), MultiExact.valueList s ⟨[], raw, ts⟩ =
          "(" ++ Text.join ", " (os.map fun o => s.quoteOrEmpty o.value) ++ ")" := by
  refine ⟨isMultiExact_iff_exists_chain ts, ⟨?_, ?_⟩, ?_⟩
  · rintro ⟨os, list⟩
    refine ⟨list.isMultiExact, ?_⟩
    rw [list.values_eq, List.length_map]
    simpa using Chain.length_add_one list
  · rintro ⟨accepted, count⟩
    obtain ⟨os, rest, chain, leftover⟩ := (isMultiExact_iff_exists_chain ts).mp accepted
    exact ⟨os, isValueList_of_length chain leftover count⟩
  · intro os list
    refine ⟨list.values_eq, fun s raw => ?_⟩
    have accepted : isMultiExact ts = true := list.isMultiExact
    simp [MultiExact.valueList, Bracket.isBare, accepted, list.values_eq, List.map_map,
      Function.comp_def]

/-- Three pairs, the joints in different case and one value without quotes. -/
theorem isMultiExact_iff_three_pairs :
    let os : List Token := [.quote "\"a\"", .word "b", .quote "`c d`"]
    IsValueList (tokenize "=\"a\" or =b OR = `c d`") os ∧
      values (tokenize "=\"a\" or =b OR = `c d`") = [("a" : Text), "b", "c d"] := by
  intro os
  have list : IsValueList (tokenize "=\"a\" or =b OR = `c d`") os :=
    .cons (by decide) rfl (by decide) (.cons (by decide) rfl (by decide) (.pair (by decide) rfl []))
  exact ⟨list, ((isMultiExact_iff _).2.2 os list).1⟩

/-- A word that is left over is accepted, and the group loses it. -/
theorem isMultiExact_leftover :
    let ts := tokenize "=\"a\" or x"
    (isMultiExact ts = true ∧ ¬∃ os, IsValueList ts os) ∧
      Query.readOperations "(=\"a\" or x)" "_msg" =
        [{ id := .multiExact, params := [.text "_msg", .text "(a)"] }] := by
  intro ts
  refine ⟨⟨by decide, ?_⟩, by decide⟩
  rintro ⟨os, list⟩
  have count : ts.length + 1 = 3 * os.length := Chain.length_add_one list
  have four : ts.length = 4 := by decide
  omega

end LogQuery.Filter.Legacy
