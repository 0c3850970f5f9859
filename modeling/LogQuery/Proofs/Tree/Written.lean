import LogQuery.Proofs.Tree.Count
import LogQuery.Proofs.Tree.Words

/-!
# Reading written filter trees

The groups of a written tree stand at bracket depth one, and whatever brackets a group holds are
passed over until its own closes. So the scan for groups cuts a written tree at its groups, the
text between them comes down to its filters and operators, and each group is a written tree again
with one level less to go. Read back so, a tree loses nothing.
-/

namespace LogQuery

namespace FilterNode

/-- Every filter is a word of its own and every operator an operator. -/
inductive IsPlain : FilterNode → Prop
  | leaf {x : Text} (h : FilterTree.IsFilterWord x) : IsPlain (.leaf x)
  | group {vs : List FilterNode} {os : List Text} (values : ∀ v ∈ vs, IsPlain v)
      (operators : ∀ o ∈ os, FilterTree.isOperator o = true) : IsPlain (.group vs os)

mutual

/-- How many groups lie within one another in the node. -/
def nesting : FilterNode → Nat
  | leaf _ => 0
  | group vs _ => nestingAll vs + 1

def nestingAll : List FilterNode → Nat
  | [] => 0
  | v :: vs => max (nesting v) (nestingAll vs)

end

theorem nesting_le_of_mem {v : FilterNode} {vs : List FilterNode} (h : v ∈ vs) :
    v.nesting ≤ nestingAll vs := by
  induction vs with
  | nil => contradiction
  | cons w ws ih =>
      rw [nestingAll]
      rcases List.mem_cons.mp h with rfl | h
      · exact Nat.le_max_left _ _
      · exact Nat.le_trans (ih h) (Nat.le_max_right _ _)

/-- A group has fewer levels below it than the list it is in. -/
theorem nestingAll_lt_of_mem {vs ws : List FilterNode} {os : List Text} (h : .group vs os ∈ ws) :
    nestingAll vs < nestingAll ws := by
  have member := nesting_le_of_mem h
  rwa [nesting] at member

end FilterNode

namespace FilterTree

variable {t u o x : Text} {s : GroupScan}

/-- How many groups lie within one another below the root. -/
def nesting (t : FilterTree) : Nat := FilterNode.nestingAll t.values

theorem operatorText_eq {operator : Option Text} (h : ∀ o ∈ operator, isOperator o = true) :
    operatorText operator = ' ' :: (operator.getD defaultOperator ++ [' ']) := by
  cases operator with
  | none => rfl
  | some o =>
      have name := isName_of_isOperator (h o rfl)
      simp [operatorText, name.trim_eq, name.nonempty]

theorem isOperator_getD {operator : Option Text} (h : ∀ o ∈ operator, isOperator o = true) :
    isOperator (operator.getD defaultOperator) = true := by
  cases operator with
  | none => rfl
  | some o => exact h o rfl

theorem isPlainChar_operatorText {operator : Option Text}
    (h : ∀ o ∈ operator, isOperator o = true) :
    ∀ c ∈ operatorText operator, isPlainChar c = true := by
  intro c hc
  rw [operatorText_eq h] at hc
  rcases List.mem_cons.mp hc with rfl | hc
  · rfl
  · rcases List.mem_append.mp hc with hc | hc
    · exact (isWord_of_isOperator (isOperator_getD h)).plain c hc
    · rw [List.mem_singleton.mp hc]
      rfl

/-- What holds of plain texts and of the texts of values holds of the values with their operators,
if it holds of texts put together. -/
theorem joinText_of {P : Text → Prop} (plain : ∀ {t : Text}, (∀ c ∈ t, isPlainChar c = true) → P t)
    (append : ∀ {t u : Text}, P t → P u → P (t ++ u)) {vs : List FilterNode} {os : List Text}
    (values : ∀ v ∈ vs, P v.text) (operators : ∀ o ∈ os, isOperator o = true) :
    P (FilterNode.joinText vs os) := by
  induction vs generalizing os with
  | nil =>
      rw [FilterNode.joinText]
      exact plain (by simp)
  | cons v vs ih =>
      have first : P v.text := values v List.mem_cons_self
      cases vs with
      | nil => rwa [FilterNode.joinText]
      | cons w ws =>
          have between : P (operatorText os.head?) :=
            plain (isPlainChar_operatorText fun o ho => operators o (List.mem_of_mem_head? ho))
          have rest : P (FilterNode.joinText (w :: ws) os.tail) :=
            ih (fun u hu => values u (List.mem_cons_of_mem _ hu))
              fun o ho => operators o (List.mem_of_mem_tail ho)
          rw [FilterNode.joinText]
          exact append (append first between) rest

/-! ### Passing over text -/

/-- Goes past a text and holds it. -/
def GroupScan.past (s : GroupScan) (t : Text) : GroupScan := t.foldl GroupScan.hold s

namespace GroupScan

theorem past_append (s : GroupScan) (t u : Text) : s.past (t ++ u) = (s.past t).past u :=
  List.foldl_append

@[simp] theorem past_buffer (s : GroupScan) (t : Text) : (s.past t).buffer = s.buffer ++ t := by
  induction t generalizing s with
  | nil => simp [past]
  | cons c cs ih =>
      have step := ih (s.hold c)
      simpa [past, buffer, hold] using step

/-- What holding one character leaves as it is, going past a text leaves as it is. -/
theorem past_of_hold {α : Type} {f : GroupScan → α} (kept : ∀ s c, f (s.hold c) = f s)
    (s : GroupScan) (t : Text) : f (s.past t) = f s := by
  induction t generalizing s with
  | nil => rfl
  | cons c cs ih => exact (ih (s.hold c)).trans (kept s c)

@[simp] theorem past_within (s : GroupScan) (t : Text) : (s.past t).within = s.within :=
  past_of_hold (fun _ _ => rfl) s t

@[simp] theorem past_depth (s : GroupScan) (t : Text) : (s.past t).depth = s.depth :=
  past_of_hold (fun _ _ => rfl) s t

@[simp] theorem past_call (s : GroupScan) (t : Text) : (s.past t).call = s.call :=
  past_of_hold (fun _ _ => rfl) s t

theorem past_previous (s : GroupScan) (t : Text) (c : Char) :
    (s.past (t ++ [c])).previous = some c := by
  rw [past_append]
  rfl

/-- What may be changed before one character is held or after it may be changed before or after
going past a text. -/
theorem past_comm {f : GroupScan → GroupScan} (comm : ∀ s c, (f s).hold c = f (s.hold c))
    (s : GroupScan) (t : Text) : (f s).past t = f (s.past t) :=
  List.foldl_hom f comm

/-- The depth goes along unchanged. -/
theorem past_withDepth (s : GroupScan) (depth : Nat) (t : Text) :
    ({ s with depth } : GroupScan).past t = { s.past t with depth } :=
  past_comm (f := fun s => { s with depth }) (fun _ _ => rfl) s t

theorem step_plain {c : Char} (outside : s.within = .outside) (h : isPlainChar c = true) :
    s.step c = ([], s.hold c) := by
  simp only [isPlainChar, Bool.and_eq_true, Option.isNone_iff_eq_none, bne_iff_ne] at h
  obtain ⟨⟨notMark, notOpen⟩, notClose⟩ := h
  have within : s.within.step false c = s.within := by
    rw [outside, Within.step, notMark]
  simp [step, notOpen, notClose, within]
  rfl

theorem run_plain (outside : s.within = .outside) (h : ∀ c ∈ t, isPlainChar c = true) (u : Text) :
    s.run (t ++ u) = (s.past t).run u := by
  induction t generalizing s with
  | nil => rfl
  | cons c cs ih =>
      rw [List.cons_append, run, step_plain outside (h c (by simp))]
      exact ih (s := s.hold c) outside fun d hd => h d (by simp [hd])

/-- Outside of groups the end of the text ends the text held. -/
theorem run_nil (depth : s.depth = 0) : s.run [] = textPiece s.buffer := by
  simp [run, finish, depth]

end GroupScan

/-- Inside a group the text is held as it stands, brackets and all. -/
def Passes (t : Text) : Prop :=
  ∀ s : GroupScan, s.within = .outside → 0 < s.depth → ∀ u, s.run (t ++ u) = (s.past t).run u

namespace Passes

theorem of_plain (h : ∀ c ∈ t, isPlainChar c = true) : Passes t :=
  fun _ outside _ u => GroupScan.run_plain outside h u

theorem append (ht : Passes t) (hu : Passes u) : Passes (t ++ u) := by
  intro s outside deep v
  rw [List.append_assoc, ht s outside deep, hu (s.past t) (by simpa) (by simpa),
    GroupScan.past_append]

/-- A group inside a group closes without an end of the outer one. -/
theorem brackets (h : Passes t) : Passes ('(' :: (t ++ [')'])) := by
  intro s outside deep u
  have opened : s.step '(' = ([], { s.hold '(' with depth := s.depth + 1 }) := by
    simp [GroupScan.step, outside, GroupScan.stepOpen, deep]
  have closed {s' : GroupScan} (outside' : s'.within = .outside) (depth : s'.depth = s.depth + 1) :
      s'.step ')' = ([], { s'.hold ')' with depth := s.depth }) := by
    have stays : s.depth ≠ 0 := by omega
    simp [GroupScan.step, outside', GroupScan.stepClose, depth, stays]
  rw [List.cons_append, GroupScan.run, opened, List.nil_append, List.append_assoc,
    h _ (by simpa [GroupScan.hold]) (by simp), List.singleton_append, GroupScan.run,
    closed (by simpa [GroupScan.hold]) (by simp), List.nil_append]
  have whole : s.past ('(' :: (t ++ [')'])) = ((s.hold '(').past t).hold ')' :=
    GroupScan.past_append (s.hold '(') t [')']
  have depth : ((s.hold '(').past t).depth = s.depth := GroupScan.past_depth _ t
  rw [whole, GroupScan.past_withDepth, ← depth]
  rfl

/-- A group outside of groups ends the text before it, and nothing is held behind it. -/
theorem run_group (h : Passes t) (outside : s.within = .outside) (depth : s.depth = 0)
    (noCall : s.startsCall = false) :
    ∃ s' : GroupScan, s'.within = .outside ∧ s'.depth = 0 ∧ s'.buffer = [] ∧
      s'.previous = some ')' ∧
        ∀ u, s.run ('(' :: (t ++ ')' :: u)) = textPiece s.buffer ++ .group t :: s'.run u := by
  let inside : GroupScan :=
    { s.hold '(' with depth := 1, openedAt := s.position, call := false, held := ['('] }
  have opened : s.step '(' = (textPiece s.buffer, inside) := by
    simp [inside, GroupScan.step, outside, GroupScan.stepOpen, depth, noCall]
  have closed {s' : GroupScan} (outside : s'.within = .outside) (depth : s'.depth = 1)
      (noCall : s'.call = false) : s'.step ')' =
        ([.group s'.buffer.tail], { s'.hold ')' with depth := 0, held := [] }) := by
    simp [GroupScan.step, outside, GroupScan.stepClose, depth, noCall]
  have within : inside.within = .outside := outside
  refine ⟨{ (inside.past t).hold ')' with depth := 0, held := [] }, ?_, rfl, rfl, rfl, ?_⟩
  · exact (GroupScan.past_within inside t).trans within
  · intro u
    rw [GroupScan.run, opened, h inside within Nat.one_pos, GroupScan.run,
      closed (by simpa) (GroupScan.past_depth ..) (GroupScan.past_call ..), GroupScan.past_buffer]
    rfl

theorem joinText {vs : List FilterNode} {os : List Text} (values : ∀ v ∈ vs, Passes v.text)
    (operators : ∀ o ∈ os, isOperator o = true) : Passes (FilterNode.joinText vs os) :=
  joinText_of of_plain append values operators

theorem text {v : FilterNode} (h : v.IsPlain) : Passes v.text := by
  induction h with
  | leaf h =>
      rw [FilterNode.text]
      exact of_plain h.plain
  | group values operators ih =>
      rw [FilterNode.text]
      exact brackets (joinText ih operators)

end Passes

/-! ### Pieces -/

/-- The pieces come down to the items without an error. -/
structure Reads (group : Text → Item × List TreeError) (ps : List Piece) (items : List Item) :
    Prop where
  items : (ps.map (pieceItems group)).flatMap Prod.fst = items
  balanced : pieceErrors ps = []
  inner : (ps.map (pieceItems group)).flatMap Prod.snd = []

namespace Reads

variable {group : Text → Item × List TreeError} {ps qs : List Piece} {items rest : List Item}

theorem nil : Reads group [] [] := ⟨rfl, rfl, rfl⟩

theorem append (hp : Reads group ps items) (hq : Reads group qs rest) :
    Reads group (ps ++ qs) (items ++ rest) where
  items := by rw [List.map_append, List.flatMap_append, hp.items, hq.items]
  balanced := by
    rw [pieceErrors, List.filterMap_append]
    exact List.append_eq_nil_iff.mpr ⟨hp.balanced, hq.balanced⟩
  inner := by rw [List.map_append, List.flatMap_append, hp.inner, hq.inner, List.append_nil]

theorem singleton_group {inner : Text} {v : FilterNode} (h : group inner = (.value v, [])) :
    Reads group [.group inner] [.value v] := by
  refine ⟨?_, rfl, ?_⟩
  · simp [pieceItems, h]
  · simp [pieceItems, h]

/-- A blank text is no piece, and has no items. -/
theorem textPiece (t : Text) : Reads group (textPiece t) (textItems t) := by
  rw [FilterTree.textPiece]
  split
  · next blank =>
    rw [textItems_blank (List.all_eq_true.mp blank)]
    exact nil
  · exact ⟨by simp [pieceItems], rfl, by simp [pieceItems]⟩

theorem ofPieces_eq (h : Reads group ps items) : ofPieces group ps = ⟨ofItems items, []⟩ := by
  rw [ofPieces, h.items, h.balanced, h.inner]
  rfl

end Reads

/-- The items of values with the operators between them. -/
def written : List FilterNode → List Text → List Item
  | [], _ => []
  | [v], _ => [.value v]
  | v :: w :: vs, os =>
    .value v :: .operator (os.head?.getD defaultOperator) :: written (w :: vs) os.tail

/-- Putting counted values behind others gives them back in order. -/
theorem attach_written {vs : List FilterNode} {os : List Text} (h : os.length + 1 = vs.length)
    (t : FilterTree) (pending : Option Text) :
    attach t pending (written vs os) =
      ⟨t.values ++ vs, (if t.values.isEmpty then t.operators
        else t.operators ++ [pending.getD defaultOperator]) ++ os⟩ := by
  fun_induction written vs os generalizing t pending with
  | case1 os => simp at h
  | case2 v os =>
      obtain rfl : os = [] := by simpa using h
      simp [attach]
  | case3 v w vs os ih =>
      cases os with
      | nil => simp at h
      | cons o os =>
          rw [attach, attach, List.head?_cons, ih (by simpa using h)]
          simp

theorem ofItems_written {vs : List FilterNode} {os : List Text} (h : os.length = vs.length - 1) :
    ofItems (written vs os) = ⟨vs, os⟩ := by
  cases vs with
  | nil =>
      obtain rfl : os = [] := by simpa using h
      rfl
  | cons v vs => exact attach_written (by simp [h]) {} none

/-- The scan stands in front of a value. The text held comes down to `items`, and whatever word
comes next starts anew. -/
structure AtValue (s : GroupScan) (items : List Item) : Prop where
  outside : s.within = .outside
  depth : s.depth = 0
  noCall : s.startsCall = false
  items : ∀ u, textItems (s.buffer ++ u) = items ++ textItems u

/-- The scan stands behind a value. The text held comes down to `items`, and so it does with an
operator behind it. -/
structure BehindValue (s : GroupScan) (items : List Item) : Prop where
  outside : s.within = .outside
  depth : s.depth = 0
  ending : textItems s.buffer = items
  operator : ∀ o, isOperator o = true → ∀ u,
    textItems (s.buffer ++ ' ' :: (o ++ ' ' :: u)) = items ++ .operator o :: textItems u

section Scan

variable {items : List Item} {group : Text → Item × List TreeError}

theorem atValue_start : AtValue {} [] := ⟨rfl, rfl, rfl, fun _ => rfl⟩

theorem AtValue.ending (h : AtValue s items) : textItems s.buffer = items := by
  have held := h.items []
  rwa [List.append_nil, textItems_nil, List.append_nil] at held

theorem AtValue.reads_held (h : AtValue s items) : Reads group (textPiece s.buffer) items :=
  h.ending ▸ Reads.textPiece s.buffer

theorem AtValue.past_leaf (h : AtValue s items) (hx : IsFilterWord x) :
    BehindValue (s.past x) (items ++ [.value (.leaf x)]) where
  outside := by simp [h.outside]
  depth := by simp [h.depth]
  ending := by rw [GroupScan.past_buffer, h.items, textItems_filter hx]
  operator o ho u := by
    rw [GroupScan.past_buffer, List.append_assoc, h.items, textItems_filter_operator hx ho]
    simp

/-- The end of the text behind a value. -/
theorem BehindValue.reads (h : BehindValue s items) : Reads group (s.run []) items := by
  rw [GroupScan.run_nil h.depth, ← h.ending]
  exact Reads.textPiece s.buffer

/-- An operator behind a value leads to the next value. -/
theorem BehindValue.past_operator (h : BehindValue s items) {operator : Option Text}
    (ho : ∀ o ∈ operator, isOperator o = true) :
    AtValue (s.past (operatorText operator))
      (items ++ [.operator (operator.getD defaultOperator)]) where
  outside := by simp [h.outside]
  depth := by simp [h.depth]
  noCall := by
    rw [operatorText_eq ho]
    have blank := GroupScan.past_previous s (' ' :: operator.getD defaultOperator) ' '
    rw [List.cons_append] at blank
    rw [GroupScan.startsCall, blank, GroupScan.past_buffer,
      endsInMembership_operator (isOperator_getD ho)]
    rfl
  items u := by
    have operator := h.operator _ (isOperator_getD ho) u
    rw [GroupScan.past_buffer, operatorText_eq ho]
    simpa using operator

/-- A group ends the text before it, and nothing is held behind it. -/
theorem AtValue.run_group (h : AtValue s items) {inner : Text} (hi : Passes inner) :
    ∃ s', BehindValue s' [] ∧
      ∀ u, s.run ('(' :: (inner ++ ')' :: u)) = textPiece s.buffer ++ .group inner :: s'.run u := by
  obtain ⟨s', outside, depth, empty, -, run⟩ := hi.run_group h.outside h.depth h.noCall
  refine ⟨s', ⟨outside, depth, by rw [empty, textItems_nil], ?_⟩, run⟩
  intro o ho u
  rw [empty, List.nil_append, textItems_space, textItems_operator ho u]
  rfl

/-- A reader for groups that gives the node back. -/
def ReadsGroup (group : Text → Item × List TreeError) (v : FilterNode) : Prop :=
  ∀ vs os, v = .group vs os → group (FilterNode.joinText vs os) = (.value v, [])

/-- From one side of a value to the other: a filter is held, a group is read with all that was
held before it. -/
theorem AtValue.run_value (h : AtValue s items) {v : FilterNode} (hv : v.IsPlain)
    (hg : ReadsGroup group v) :
    ∃ s' ps before behind, BehindValue s' behind ∧ Reads group ps before ∧
      before ++ behind = items ++ [.value v] ∧ ∀ u, s.run (v.text ++ u) = ps ++ s'.run u := by
  cases hv with
  | @leaf x hx =>
      refine ⟨s.past x, [], [], _, h.past_leaf hx, .nil, rfl, fun u => ?_⟩
      rw [FilterNode.text, GroupScan.run_plain h.outside hx.plain]
      rfl
  | @group vs os values operators =>
      have inner : Passes (FilterNode.joinText vs os) :=
        .joinText (fun w hw => .text (values w hw)) operators
      obtain ⟨s', behind, run⟩ := h.run_group inner
      refine ⟨s', textPiece s.buffer ++ [.group (FilterNode.joinText vs os)],
        items ++ [.value (.group vs os)], [], behind,
        h.reads_held.append (.singleton_group (hg vs os rfl)), List.append_nil _, fun u => ?_⟩
      rw [FilterNode.text, List.cons_append, List.append_assoc, List.singleton_append, run]
      simp

theorem AtValue.reads_joinText {vs : List FilterNode} {os : List Text} (h : AtValue s items)
    (values : ∀ v ∈ vs, v.IsPlain) (operators : ∀ o ∈ os, isOperator o = true)
    (groups : ∀ v ∈ vs, ReadsGroup group v) :
    Reads group (s.run (FilterNode.joinText vs os)) (items ++ written vs os) := by
  fun_induction written vs os generalizing s items with
  | case1 os =>
      rw [FilterNode.joinText, GroupScan.run_nil h.depth, List.append_nil]
      exact h.reads_held
  | case2 v os =>
      obtain ⟨s', ps, before, behind, stands, read, split, run⟩ :=
        h.run_value (values v (by simp)) (groups v (by simp))
      have text := run []
      rw [List.append_nil] at text
      rw [FilterNode.joinText, text, ← split]
      exact read.append stands.reads
  | case3 v w vs os ih =>
      obtain ⟨s', ps, before, behind, stands, read, split, run⟩ :=
        h.run_value (values v (by simp)) (groups v (by simp))
      have first : ∀ o ∈ os.head?, isOperator o = true :=
        fun o ho => operators o (List.mem_of_mem_head? ho)
      have rest := ih (stands.past_operator first)
        (fun u hu => values u (List.mem_cons_of_mem _ hu))
        (fun o ho => operators o (List.mem_of_mem_tail ho))
        fun u hu => groups u (List.mem_cons_of_mem _ hu)
      have whole : before ++ (behind ++ [.operator (os.head?.getD defaultOperator)] ++
          written (w :: vs) os.tail) = items ++ .value v ::
            .operator (os.head?.getD defaultOperator) :: written (w :: vs) os.tail := by
        rw [List.append_assoc behind, ← List.append_assoc before, split]
        simp
      rw [FilterNode.joinText, List.append_assoc, run,
        GroupScan.run_plain stands.outside (isPlainChar_operatorText first), ← whole]
      exact read.append rest

end Scan

/-! ### Trees -/

theorem ofPieces_text {group : Text → Item × List TreeError} {t : FilterTree}
    (consistent : t.isConsistent = true) (values : ∀ v ∈ t.values, v.IsPlain)
    (operators : ∀ o ∈ t.operators, isOperator o = true)
    (groups : ∀ v ∈ t.values, ReadsGroup group v) : ofPieces group (pieces t.text) = ⟨t, []⟩ := by
  have reads : Reads group (pieces t.text) (written t.values t.operators) :=
    atValue_start.reads_joinText values operators groups
  rw [reads.ofPieces_eq, ofItems_written (isConsistent_iff.mp consistent).1]

/-- By induction on the levels: a group is a tree with one level less below it. -/
theorem readWithin_text {levels : Nat} {t : FilterTree} (consistent : t.isConsistent = true)
    (nesting : t.nesting ≤ levels) (values : ∀ v ∈ t.values, v.IsPlain)
    (operators : ∀ o ∈ t.operators, isOperator o = true) :
    readWithin levels t.text = ⟨t, []⟩ := by
  induction levels generalizing t with
  | zero =>
      refine ofPieces_text consistent values operators ?_
      rintro v hv vs os rfl
      exact absurd (Nat.lt_of_lt_of_le (FilterNode.nestingAll_lt_of_mem hv) nesting)
        (Nat.not_lt_zero _)
  | succ levels ih =>
      refine ofPieces_text consistent values operators ?_
      rintro v hv vs os rfl
      obtain ⟨innerValues, innerOperators⟩ : (∀ w ∈ vs, w.IsPlain) ∧
          ∀ o ∈ os, isOperator o = true := by
        cases values _ hv with
        | group values operators => exact ⟨values, operators⟩
      have fewer : FilterNode.nestingAll vs < levels + 1 :=
        Nat.lt_of_lt_of_le (FilterNode.nestingAll_lt_of_mem hv) nesting
      have inner : readWithin levels (FilterNode.joinText vs os) = ⟨⟨vs, os⟩, []⟩ :=
        ih (t := ⟨vs, os⟩) ((isConsistent_iff.mp consistent).2 _ hv) (Nat.le_of_lt_succ fewer)
          innerValues innerOperators
      simp only [inner]
      rfl

/-- A written tree is read back as it was, with no error. -/
theorem read_text {t : FilterTree} (consistent : t.isConsistent = true)
    (nesting : t.nesting < maxNesting) (values : ∀ v ∈ t.values, v.IsPlain)
    (operators : ∀ o ∈ t.operators, isOperator o = true) : read t.text = ⟨t, []⟩ := by
  have whole : readWithin (maxNesting - 1) t.text = ⟨t, []⟩ :=
    readWithin_text consistent (Nat.le_pred_of_lt nesting) values operators
  rw [read, whole]
  split <;> rfl

/-- Texts that begin like a test, a negation or the two sides of a colon, and an empty group. -/
theorem read_text_nested :
    let t : FilterTree :=
      ⟨[.group [.group [] [], .leaf "not"] ["oR"], .leaf ":x", .group [.leaf "a:in"] [],
        .leaf "b=1"], ["AND", "or", "And"]⟩
    (t.isConsistent = true ∧ t.nesting < maxNesting ∧ (∀ v ∈ t.values, v.IsPlain) ∧
      ∀ o ∈ t.operators, isOperator o = true) ∧ read t.text = ⟨t, []⟩ := by
  intro t
  have consistent : t.isConsistent = true := by rfl
  have nesting : t.nesting < maxNesting := by decide
  have values : ∀ v ∈ t.values, v.IsPlain := by
    have empty : FilterNode.IsPlain (.group [] []) := .group (by simp) (by simp)
    have first : FilterNode.IsPlain (.group [.group [] [], .leaf "not"] ["oR"]) :=
      .group (by simpa using ⟨empty, .leaf (by decide)⟩) (by decide)
    have test : FilterNode.IsPlain (.group [.leaf "a:in"] []) :=
      .group (by simpa using .leaf (by decide)) (by simp)
    simpa [t] using ⟨first, .leaf (by decide), test, .leaf (by decide)⟩
  have operators : ∀ o ∈ t.operators, isOperator o = true := by decide
  exact ⟨⟨consistent, nesting, values, operators⟩,
    read_text consistent nesting values operators⟩

end FilterTree

end LogQuery
