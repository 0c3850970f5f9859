import LogQuery.Proofs.Tree.Nodes

/-!
# Reading a written tree again

A tree read from a balanced text is written with its operators and brackets, and reading that
text gives the tree again unless a filter meets a neighbour in it that it did not have before. A
filter that starts with a bracket stood right behind a group, and stands behind white space now;
a filter that ends in a colon stood before a group or at the end, and stands before an operator
now. Everything else comes back, so these two shapes decide.
-/

namespace LogQuery

namespace FilterNode

/-- Not a filter that ends in a colon, which takes in what comes behind it. -/
def IsComplete : FilterNode → Prop
  | .leaf x => Text.endsWith x ":" = false
  | .group _ _ => True

instance : (v : FilterNode) → Decidable v.IsComplete
  | .leaf x => inferInstanceAs (Decidable (Text.endsWith x ":" = false))
  | .group _ _ => .isTrue trivial

/-- Written among other values and read to so many levels, the node comes back. Past the last
level a group is a filter, with its brackets. -/
inductive IsSettled : Nat → FilterNode → Prop
  | leaf {levels : Nat} {x : Text} (start : x.head? ≠ some '(') : IsSettled levels (.leaf x)
  | kept {a : Text} (inner : FilterTree.IsBalanced a) : IsSettled 0 (.leaf ('(' :: (a ++ [')'])))
  | group {levels : Nat} {vs : List FilterNode} {os : List Text}
      (values : ∀ v ∈ vs, IsSettled levels v) (complete : ∀ v ∈ vs.dropLast, v.IsComplete) :
      IsSettled (levels + 1) (.group vs os)

end FilterNode

namespace FilterTree

/-- Values that come back, each of them complete if another one follows. -/
def AreSettled (levels : Nat) (vs : List FilterNode) : Prop :=
  (∀ v ∈ vs, v.IsSettled levels) ∧ ∀ v ∈ vs.dropLast, v.IsComplete

/-- The tree comes back when it is written and read to so many levels. -/
def IsSettled (levels : Nat) (t : FilterTree) : Prop := AreSettled levels t.values

variable {a t u x c o : Text} {s : GroupScan} {items : List Item} {f : Fragment}
  {fs : List Fragment} {v : FilterNode} {vs : List FilterNode} {os : List Text} {levels : Nat}

/-! ### Filters -/

/-- The filter at hand goes on at most. -/
theorem exists_itemsAfter_some (fs : List Fragment) (c : Text) :
    ∃ w rest, itemsAfter (some c) fs = .value (.leaf (c ++ w)) :: rest := by
  induction fs generalizing c with
  | nil => exact ⟨[], [], by simp [itemsAfter]⟩
  | cons f fs ih =>
      rw [itemsAfter]
      split_ifs
      · obtain ⟨w, rest, eq⟩ := ih (c ++ f.gap ++ f.text)
        refine ⟨f.gap ++ f.text ++ w, rest, ?_⟩
        rw [eq]
        simp only [List.append_assoc]
      · exact ⟨[], _, by rw [List.append_nil]⟩
      · exact ⟨[], _, by rw [List.append_nil]⟩

/-- A filter in front of white space is the value at hand there. -/
theorem IsFilter.textItems_append (h : IsFilter x)
    (hu : StartsApart (Fragment.ofText filterRules {} u)) :
    textItems (x ++ u) = itemsAfter (some x) (Fragment.ofText filterRules {} u) := by
  obtain ⟨⟨r, fs, spaced, -, whole⟩, alone⟩ := h
  rw [← whole, spaced.textItems_flatten] at alone
  rw [← whole, textItems, spaced.ofText_append hu, itemsAfter_append alone]

theorem IsFilter.textItems_operator (h : IsFilter x) (ho : isOperator o = true) (u : Text) :
    textItems (x ++ ' ' :: (o ++ ' ' :: u)) = if joins x o
      then itemsAfter (some (x ++ ' ' :: o)) (Fragment.ofText filterRules {} (' ' :: u))
      else .value (.leaf x) :: .operator o :: textItems u := by
  rw [h.textItems_append (startsApart_space _), fragments_space,
    fragments_word (isWord_of_isOperator ho) (startsApart_space u), Fragment.addGap, itemsAfter,
    if_pos ho]
  split_ifs
  · simp
  · rw [fragments_space, itemsAfter_addGap, textItems]

theorem joins_colon (h : x.endsWith ":" = true) (t : Text) : joins x t = true := by
  rw [joins, h]
  rfl

/-! ### Items of a scan -/

variable {node : Text → FilterNode}

@[simp] theorem itemsOf_nil : itemsOf node [] = [] := rfl

@[simp] theorem itemsOf_append (ps qs : List Piece) :
    itemsOf node (ps ++ qs) = itemsOf node ps ++ itemsOf node qs := List.flatMap_append

@[simp] theorem itemsOf_group (a : Text) (ps : List Piece) :
    itemsOf node (.group a :: ps) = .value (node a) :: itemsOf node ps := rfl

@[simp] theorem itemsOf_unbalanced (position : Nat) (ps : List Piece) :
    itemsOf node (.unbalanced position :: ps) = itemsOf node ps := rfl

@[simp] theorem itemsOf_textPiece (t : Text) : itemsOf node (textPiece t) = textItems t := by
  rw [textPiece]
  split
  · next blank =>
    rw [textItems_blank (List.all_eq_true.mp blank)]
    rfl
  · simp [itemsOf, itemsOfPiece]

/-- A step that ends no text holds one more character. -/
theorem GroupScan.step_cases (node : Text → FilterNode) (h : s.depth = 0 ∨ s.call = true)
    (e : Char) :
    itemsOf node (s.step e).1 = textItems s.buffer ∨
      (s.step e).1 = [] ∧ (s.step e).2.buffer = s.buffer ++ [e] ∧
        ((s.step e).2.depth = 0 ∨ (s.step e).2.call = true) := by
  have held : (s.hold e).buffer = s.buffer ++ [e] := past_buffer s [e]
  rw [step]
  split_ifs with opener closer
  · obtain rfl : e = '(' := by simpa using (Bool.and_eq_true_iff.mp opener).2
    rw [stepOpen]
    split_ifs with deep call
    · have called : s.call = true := h.resolve_left (Nat.ne_of_gt deep)
      exact .inr ⟨rfl, held, .inr called⟩
    · exact .inr ⟨rfl, held, .inr call⟩
    · exact .inl (itemsOf_textPiece _)
  · obtain rfl : e = ')' := by simpa using (Bool.and_eq_true_iff.mp closer).2
    rw [stepClose]
    split
    · exact .inl (by simp)
    · next depth deep =>
      have called : s.call = true := h.resolve_left (by simp [deep])
      rw [if_neg (by simp [called])]
      exact .inr ⟨rfl, held, .inr called⟩
  · exact .inr ⟨rfl, held, h⟩

/-- Outside of groups the text held is the start of a piece. -/
theorem GroupScan.exists_itemsOf_run (node : Text → FilterNode) (h : s.depth = 0 ∨ s.call = true)
    (u : Text) : ∃ w rest, itemsOf node (s.run u) = textItems (s.buffer ++ w) ++ rest := by
  induction u generalizing s with
  | nil =>
      refine ⟨[], [], ?_⟩
      rw [run, finish]
      split <;> simp
  | cons e u ih =>
      rw [run, itemsOf_append]
      rcases step_cases node h e with ended | ⟨none, held, stays⟩
      · exact ⟨[], itemsOf node ((s.step e).2.run u), by rw [ended, List.append_nil]⟩
      · obtain ⟨w, rest, eq⟩ := ih stays
        exact ⟨e :: w, rest, by simp [none, eq, held]⟩

/-! ### From value to value -/

theorem AtValue.holds (h : AtValue s items) : s.Holds s.buffer := ⟨h.outside, h.depth, rfl⟩

/-- In front of this text, the scan comes to another value than this one. -/
def Misses (levels : Nat) (s : GroupScan) (items : List Item) (v : FilterNode) (t : Text) : Prop :=
  ∃ w rest, w ≠ v ∧ itemsOf (inner levels) (s.run t) = items ++ .value w :: rest

/-- The scan comes to this value with its text, and stands behind it. -/
def Meets (levels : Nat) (s : GroupScan) (items : List Item) (v : FilterNode) : Prop :=
  ∃ s' before behind, BehindValue s' behind ∧ before ++ behind = items ++ [.value v] ∧
    ∀ u, itemsOf (inner levels) (s.run (v.text ++ u)) =
      before ++ itemsOf (inner levels) (s'.run u)

/-- A filter that does not start with a bracket is held. -/
theorem AtValue.run_filter (h : AtValue s items) (hx : IsFilter x) (start : x.head? ≠ some '(') :
    ∃ s' : GroupScan, s'.Holds (s.buffer ++ x) ∧ ∀ u, s.run (x ++ u) = s'.run u := by
  obtain ⟨⟨r, fs, spaced, linked, rfl⟩, -⟩ := hx
  refine h.holds.run_linked spaced linked ?_
  intro f hf opener
  obtain rfl := Option.some.inj hf
  have first : r ≠ [] := by
    rintro rfl
    simp at opener
  rw [flatten_cons, List.nil_append, List.head?_append_of_ne_nil _ first] at start
  exact absurd opener start

/-- If nothing is to follow a colon in it, an operator may come behind the filter. -/
theorem AtValue.meets_filter (h : AtValue s items) (hx : IsFilter x) (start : x.head? ≠ some '(')
    (complete : x.endsWith ":" = false) : Meets levels s items (.leaf x) := by
  obtain ⟨s', holds, run⟩ := h.run_filter hx start
  refine ⟨s', [], items ++ [.value (.leaf x)], ⟨holds.outside, holds.depth, ?_, ?_⟩, rfl, ?_⟩
  · rw [holds.buffer, h.items, hx.alone]
  · intro o ho u
    rw [holds.buffer, List.append_assoc, h.items, hx.textItems_operator ho,
      if_neg (by simp [joins_operator complete ho])]
    simp
  · intro u
    rw [FilterNode.text, run, List.nil_append]

/-- A filter at the end comes back in any case. -/
theorem AtValue.itemsOf_filter (h : AtValue s items) (hx : IsFilter x)
    (start : x.head? ≠ some '(') :
    itemsOf (inner levels) (s.run x) = items ++ [.value (.leaf x)] := by
  obtain ⟨s', holds, run⟩ := h.run_filter hx start
  have ending := run []
  rw [List.append_nil] at ending
  rw [ending, GroupScan.run_nil holds.depth, itemsOf_textPiece, holds.buffer, h.items, hx.alone]

/-- A filter that ends in a colon takes in the operator behind it. -/
theorem AtValue.misses_colon (h : AtValue s items) (hx : IsFilter x) (start : x.head? ≠ some '(')
    (colon : x.endsWith ":" = true) {operator : Option Text}
    (ho : ∀ o ∈ operator, isOperator o = true) (u : Text) :
    Misses levels s items (.leaf x) (x ++ (operatorText operator ++ u)) := by
  obtain ⟨s', holds, run⟩ := h.run_filter hx start
  have plain := GroupScan.run_plain holds.outside (isPlainChar_operatorText ho) u
  have depth : (s'.past (operatorText operator)).depth = 0 := by
    rw [GroupScan.past_depth, holds.depth]
  obtain ⟨w, rest, items'⟩ := GroupScan.exists_itemsOf_run (inner levels) (.inl depth) u
  -- the operator is held with the filter, so the two are read together whatever comes next
  obtain ⟨v, others, longer⟩ := exists_itemsAfter_some
    (Fragment.ofText filterRules {} (' ' :: w)) (x ++ ' ' :: operator.getD defaultOperator)
  have text : s.buffer ++ x ++ operatorText operator ++ w =
      s.buffer ++ (x ++ ' ' :: (operator.getD defaultOperator ++ ' ' :: w)) := by
    rw [operatorText_eq ho]
    simp
  have other : FilterNode.leaf (x ++ ' ' :: operator.getD defaultOperator ++ v) ≠ .leaf x := by
    intro same
    have length := congrArg List.length (FilterNode.leaf.inj same)
    simp at length
  refine ⟨_, others ++ rest, other, ?_⟩
  rw [run, plain, items', GroupScan.past_buffer, holds.buffer, text, h.items,
    hx.textItems_operator (isOperator_getD ho), if_pos (joins_colon colon _), longer]
  simp

/-- A bracket in front of white space is read as a group. -/
theorem AtValue.run_bracket (h : AtValue s items) (levels : Nat) (ha : IsNested a) :
    ∃ s', BehindValue s' [] ∧ ∀ u, itemsOf (inner levels) (s.run ('(' :: (a ++ ')' :: u))) =
      items ++ .value (inner levels a) :: itemsOf (inner levels) (s'.run u) := by
  obtain ⟨s', behind, run⟩ := h.run_group (.of_nested ha)
  refine ⟨s', behind, fun u => ?_⟩
  rw [run, itemsOf_append, itemsOf_textPiece, h.ending, itemsOf_group]

theorem inner_eq_leaf (h : inner levels a = .leaf x) : levels = 0 ∧ x = '(' :: (a ++ [')']) := by
  cases levels with
  | zero => exact ⟨rfl, (FilterNode.leaf.inj h).symm⟩
  | succ levels => cases h

/-- A group, or what is kept of it, comes back if its inside does. -/
theorem AtValue.meets_bracket (h : AtValue s items) (ha : IsNested a)
    (text : v.text = '(' :: (a ++ [')'])) (same : inner levels a = v) :
    Meets levels s items v := by
  obtain ⟨s', behind, run⟩ := h.run_bracket levels ha
  refine ⟨s', items ++ [.value v], [], behind, List.append_nil _, fun u => ?_⟩
  rw [text, List.cons_append, List.append_assoc, List.singleton_append, run, same]
  simp

theorem AtValue.misses_bracket (h : AtValue s items) (ha : IsNested a) {z : Text}
    (text : v.text = '(' :: (a ++ ')' :: z)) (other : inner levels a ≠ v) (u : Text) :
    Misses levels s items v (v.text ++ u) := by
  obtain ⟨s', -, run⟩ := h.run_bracket levels ha
  refine ⟨_, itemsOf (inner levels) (s'.run (z ++ u)), other, ?_⟩
  rw [text, List.cons_append, List.append_assoc, List.cons_append, run]

theorem endsWith_bracket (a : Text) : Text.endsWith ('(' :: (a ++ [')'])) ":" = false := by
  rw [Bool.eq_false_iff]
  intro ends
  obtain ⟨t, split⟩ := List.isSuffixOf_iff_suffix.mp ends
  have last := congrArg List.getLast? split
  simp [List.getLast?_cons] at last

theorem isSettled_leaf_iff : (FilterNode.leaf x).IsSettled levels ↔
    x.head? ≠ some '(' ∨ levels = 0 ∧ ∃ a, IsBalanced a ∧ x = '(' :: (a ++ [')']) := by
  constructor
  · intro h
    cases h with
    | leaf start => exact .inl start
    | kept inner => exact .inr ⟨rfl, _, inner, rfl⟩
  · rintro (start | ⟨rfl, a, inner, rfl⟩)
    · exact .leaf start
    · exact .kept inner

theorem isSettled_group_iff :
    (FilterNode.group vs os).IsSettled (levels + 1) ↔ AreSettled levels vs := by
  constructor
  · intro h
    cases h with
    | group values complete => exact ⟨values, complete⟩
  · intro h
    exact .group h.1 h.2

/-- A filter that starts with a bracket comes back only if it was kept past the last level. -/
theorem AtValue.meets_or_misses_opener (h : AtValue s items) (hx : IsFilter x)
    (opener : x.head? = some '(') :
    (FilterNode.leaf x).IsSettled levels ∧ (FilterNode.leaf x).IsComplete ∧
        Meets levels s items (.leaf x) ∨
      ¬ (FilterNode.leaf x).IsSettled levels ∧
        ∀ u, Misses levels s items (.leaf x) ((FilterNode.leaf x).text ++ u) := by
  rw [isSettled_leaf_iff]
  by_cases kept : levels = 0 ∧ ∃ a, IsBalanced a ∧ x = '(' :: (a ++ [')'])
  · obtain ⟨rfl, a, balanced, rfl⟩ := kept
    exact .inl ⟨.inr ⟨rfl, a, balanced, rfl⟩, endsWith_bracket a,
      h.meets_bracket (isNested_iff.mpr balanced) (by rw [FilterNode.text]) rfl⟩
  · obtain ⟨⟨r, fs, spaced, -, rfl⟩, -⟩ := hx
    have run : IsRun r := by
      cases spaced with
      | cons run _ _ _ => exact run
    rw [flatten_cons, List.nil_append, List.head?_append_of_ne_nil _ run.tight.nonempty] at opener
    obtain ⟨a, z, rfl, nested, -⟩ := run.exists_bracket opener
    refine .inr ⟨?_, ?_⟩
    · rintro (start | settled)
      · simp at start
      · exact kept settled
    · -- even past the last level the group is another filter, unless nothing is glued to it
      refine h.misses_bracket nested (z := z ++ flatten fs) (by simp [FilterNode.text]) ?_
      intro same
      obtain ⟨none, whole⟩ := inner_eq_leaf same
      exact kept ⟨none, a, isNested_iff.mp nested, whole⟩

/-! ### Lists of values -/

/-- The values among items. -/
def valuesOf (items : List Item) : List FilterNode :=
  items.filterMap fun
    | .operator _ => none
    | .value v => some v

@[simp] theorem valuesOf_value (v : FilterNode) (items : List Item) :
    valuesOf (.value v :: items) = v :: valuesOf items := rfl

@[simp] theorem valuesOf_operator (o : Text) (items : List Item) :
    valuesOf (.operator o :: items) = valuesOf items := rfl

theorem values_attach (t : FilterTree) (pending : Option Text) (items : List Item) :
    (attach t pending items).values = t.values ++ valuesOf items := by
  induction items generalizing t pending with
  | nil => simp [attach, valuesOf]
  | cons i items ih =>
      cases i with
      | operator o => exact ih t (some o)
      | value v => simp [attach, ih]

theorem areSettled_cons_cons {w : FilterNode} : AreSettled levels (v :: w :: vs) ↔
    v.IsSettled levels ∧ v.IsComplete ∧ AreSettled levels (w :: vs) := by
  simp only [AreSettled, List.dropLast_cons_cons, List.forall_mem_cons]
  tauto

/-- The written values come down to these items, which are those of the values if all of the
values are settled, and to other values if not. -/
def Rereads (levels : Nat) (s : GroupScan) (items : List Item) (vs : List FilterNode)
    (os : List Text) : Prop :=
  ∃ its, itemsOf (inner levels) (s.run (FilterNode.joinText vs os)) = items ++ its ∧
    (AreSettled levels vs → its = written vs os) ∧ (valuesOf its = vs → AreSettled levels vs)

theorem rereads_singleton (settled : v.IsSettled levels)
    (read : itemsOf (inner levels) (s.run v.text) = items ++ [.value v]) :
    Rereads levels s items [v] os :=
  ⟨[.value v], by rw [FilterNode.joinText, read], fun _ => rfl,
    fun _ => ⟨by simpa using settled, by simp⟩⟩

theorem exists_joinText_cons (v : FilterNode) (vs : List FilterNode) (os : List Text) :
    ∃ u, FilterNode.joinText (v :: vs) os = v.text ++ u := by
  cases vs with
  | nil => exact ⟨[], by rw [FilterNode.joinText, List.append_nil]⟩
  | cons w ws => exact ⟨_, by rw [FilterNode.joinText, List.append_assoc]⟩

theorem Misses.rereads (h : Misses levels s items v (FilterNode.joinText (v :: vs) os))
    (loose : ¬ AreSettled levels (v :: vs)) : Rereads levels s items (v :: vs) os := by
  obtain ⟨w, rest, other, read⟩ := h
  refine ⟨_, read, fun settled => absurd settled loose, fun same => ?_⟩
  rw [valuesOf_value] at same
  exact absurd (List.cons.inj same).1 other

/-- Behind a value that comes back, the others decide. -/
theorem Meets.rereads (h : Meets levels s items v) (settled : v.IsSettled levels)
    (complete : v.IsComplete) (operators : ∀ o ∈ os, isOperator o = true)
    (rest : ∀ {s items os}, AtValue s items → (∀ o ∈ os, isOperator o = true) →
      Rereads levels s items vs os) : Rereads levels s items (v :: vs) os := by
  obtain ⟨s', before, behind, stands, split, read⟩ := h
  cases vs with
  | nil =>
      have ending := read []
      rw [List.append_nil, GroupScan.run_nil stands.depth, itemsOf_textPiece, stands.ending,
        split] at ending
      exact rereads_singleton settled ending
  | cons w ws =>
      have first : ∀ o ∈ os.head?, isOperator o = true :=
        fun o ho => operators o (List.mem_of_mem_head? ho)
      have later : ∀ o ∈ os.tail, isOperator o = true :=
        fun o ho => operators o (List.mem_of_mem_tail ho)
      obtain ⟨its, others, back, forth⟩ := rest (stands.past_operator first) later
      refine ⟨.value v :: .operator (os.head?.getD defaultOperator) :: its, ?_, ?_, ?_⟩
      · rw [FilterNode.joinText, List.append_assoc, read,
          GroupScan.run_plain stands.outside (isPlainChar_operatorText first), others,
          List.append_assoc, ← List.append_assoc before, split]
        simp
      · intro all
        rw [written, back (areSettled_cons_cons.mp all).2.2]
      · intro same
        exact areSettled_cons_cons.mpr ⟨settled, complete, forth (List.cons.inj same).2⟩

/-- By induction on the values: as long as they come back, the scan stands in front of the next. -/
theorem AtValue.rereads (h : AtValue s items) (values : ∀ v ∈ vs, v.IsRead levels)
    (operators : ∀ o ∈ os, isOperator o = true)
    (groups : ∀ ws ps, .group ws ps ∈ vs →
      (inner levels (FilterNode.joinText ws ps) = .group ws ps ↔
        (FilterNode.group ws ps).IsSettled levels)) : Rereads levels s items vs os := by
  induction vs generalizing s items os with
  | nil =>
      refine ⟨[], ?_, fun _ => rfl, fun _ => ⟨by simp, by simp⟩⟩
      rw [FilterNode.joinText, GroupScan.run_nil h.depth, itemsOf_textPiece, h.ending,
        List.append_nil]
  | cons v vs ih =>
      have rest {s : GroupScan} {items : List Item} {os : List Text} (h : AtValue s items)
          (operators : ∀ o ∈ os, isOperator o = true) : Rereads levels s items vs os :=
        ih h (fun w hw => values w (by simp [hw])) operators
          fun ws ps hw => groups ws ps (by simp [hw])
      have misses (loose : ¬ v.IsSettled levels)
          (other : ∀ u, Misses levels s items v (v.text ++ u)) :
          Rereads levels s items (v :: vs) os := by
        obtain ⟨u, text⟩ := exists_joinText_cons v vs os
        exact Misses.rereads (by rw [text]; exact other u) fun all => loose (all.1 v (by simp))
      cases values v (by simp) with
      | @leaf _ x hx =>
          by_cases start : x.head? = some '('
          · rcases h.meets_or_misses_opener hx start with
              ⟨settled, complete, meets⟩ | ⟨loose, other⟩
            · exact meets.rereads settled complete operators rest
            · exact misses loose other
          have settled : (FilterNode.leaf x).IsSettled levels := .leaf start
          by_cases complete : (FilterNode.leaf x).IsComplete
          · exact (h.meets_filter hx start complete).rereads settled complete operators rest
          have colon : x.endsWith ":" = true := by simpa [FilterNode.IsComplete] using complete
          cases vs with
          | nil =>
              refine rereads_singleton settled ?_
              rw [FilterNode.text, h.itemsOf_filter hx start]
          | cons w ws =>
              have first : ∀ o ∈ os.head?, isOperator o = true :=
                fun o ho => operators o (List.mem_of_mem_head? ho)
              refine Misses.rereads ?_ fun all => complete (areSettled_cons_cons.mp all).2.1
              rw [FilterNode.joinText, List.append_assoc, FilterNode.text]
              exact h.misses_colon hx start colon first _
      | @group levels ws ps inside ops _ =>
          have nested : IsNested (FilterNode.joinText ws ps) := nested_joinText inside ops
          have comes := groups ws ps (by simp)
          by_cases same : inner (levels + 1) (FilterNode.joinText ws ps) = .group ws ps
          · refine Meets.rereads ?_ (comes.mp same) trivial operators rest
            exact h.meets_bracket nested (by rw [FilterNode.text]) same
          · refine misses (mt comes.mpr same) (h.misses_bracket nested (z := []) ?_ same)
            rw [FilterNode.text]

/-! ### Trees -/

theorem toNode_eq_group_iff {t : FilterTree} : t.toNode = .group vs os ↔ t = ⟨vs, os⟩ := by
  cases t
  simp [toNode]

/-- By induction on the levels: a group comes back if its inside does. -/
theorem readWithin_joinText_iff (values : ∀ v ∈ vs, v.IsRead levels)
    (operators : ∀ o ∈ os, isOperator o = true) (count : os.length = vs.length - 1) :
    (readWithin levels (FilterNode.joinText vs os)).tree = ⟨vs, os⟩ ↔ AreSettled levels vs := by
  have whole {levels : Nat} {vs : List FilterNode} {os : List Text}
      (count : os.length = vs.length - 1)
      (h : Rereads levels {} [] vs os) :
      (readWithin levels (FilterNode.joinText vs os)).tree = ⟨vs, os⟩ ↔ AreSettled levels vs := by
    obtain ⟨its, read, back, forth⟩ := h
    rw [readWithin_tree, pieces, read, List.nil_append]
    constructor
    · intro same
      have values := congrArg FilterTree.values same
      rw [ofItems, values_attach] at values
      exact forth values
    · intro settled
      rw [back settled, ofItems_written count]
  induction levels generalizing vs os with
  | zero =>
      refine whole count (atValue_start.rereads values operators fun ws ps hw => ?_)
      cases values _ hw
  | succ levels ih =>
      refine whole count (atValue_start.rereads values operators fun ws ps hw => ?_)
      cases values _ hw with
      | group inside ops count =>
          exact toNode_eq_group_iff.trans ((ih inside ops count).trans isSettled_group_iff.symm)

/-- Reading the written tree of a balanced text gives the tree again exactly if the tree is
settled. -/
theorem ofText_text_ofText_iff {t : Text} (h : IsBalanced t) :
    ofText (ofText t).text = ofText t ↔ (ofText t).IsSettled (maxNesting - 1) := by
  have root (t : Text) : ofText t = (readWithin (maxNesting - 1) t).tree := by
    rw [ofText, read]
    split <;> rfl
  obtain ⟨values, operators⟩ := isReadTree_readWithin (maxNesting - 1) (isNested_iff.mpr h)
  rw [root t, root]
  exact readWithin_joinText_iff values operators
    (isConsistent_iff.mp (isConsistent_readWithin (maxNesting - 1) t)).1

/-- A group, a membership test, a call, a quoted bracket, and a colon at the end. -/
theorem ofText_text_ofText_of_settled :
    let t : Text := "(a or not b) x:in (1, 2) AND f(y) \")\" c:"
    IsBalanced t ∧ (ofText t).IsSettled (maxNesting - 1) ∧ ofText (ofText t).text = ofText t := by
  intro t
  have balanced : IsBalanced t := by decide
  have tree : ofText t = ⟨[.group [.leaf "a", .leaf "not b"] ["or"], .leaf "x:in (1, 2)",
      .leaf "f(y)", .leaf "\")\"", .leaf "c:"], ["AND", "AND", "AND", "AND"]⟩ := by rfl
  have group : (FilterNode.group [.leaf "a", .leaf "not b"] ["or"]).IsSettled (62 + 1) :=
    .group (by simpa using ⟨.leaf (by decide), .leaf (by decide)⟩) (by decide)
  have settled : (ofText t).IsSettled (62 + 1) := by
    rw [tree]
    refine ⟨?_, by decide⟩
    simpa using ⟨group, .leaf (by decide), .leaf (by decide), .leaf (by decide), .leaf (by decide)⟩
  exact ⟨balanced, settled, (ofText_text_ofText_iff balanced).mpr settled⟩

/-- A colon in front of a group takes in the operator that is written between them, and what
stands right behind a group in brackets is a group itself behind an operator. -/
theorem ofText_text_ofText_ne :
    let colon : Text := "a: (b)"
    let glued : Text := "(a)(b)"
    (IsBalanced colon ∧ ofText (ofText colon).text ≠ ofText colon) ∧
      IsBalanced glued ∧ ofText (ofText glued).text ≠ ofText glued := by
  intro colon glued
  have colonOnce : ofText colon = ⟨[.leaf "a:", .group [.leaf "b"] []], ["AND"]⟩ := by rfl
  have colonTwice : ofText "a: AND (b)" =
      ⟨[.leaf "a: AND", .group [.leaf "b"] []], ["AND"]⟩ := by rfl
  have gluedOnce : ofText glued = ⟨[.group [.leaf "a"] [], .leaf "(b)"], ["AND"]⟩ := by rfl
  have gluedTwice : ofText "(a) AND (b)" =
      ⟨[.group [.leaf "a"] [], .group [.leaf "b"] []], ["AND"]⟩ := by rfl
  refine ⟨⟨by decide, ?_⟩, by decide, ?_⟩
  · have text : (ofText colon).text = "a: AND (b)" := by
      rw [colonOnce]
      rfl
    rw [text, colonTwice, colonOnce]
    simp
  · have text : (ofText glued).text = "(a) AND (b)" := by
      rw [gluedOnce]
      rfl
    rw [text, gluedTwice, gluedOnce]
    simp

end FilterTree

end LogQuery
