import LogQuery.Proofs.Tree.Pieces

/-!
# Nodes read from balanced texts

A filter read from linked runs is linked runs itself, and read alone it is one filter again. So
the nodes of the tree of a balanced text are known: such filters, and groups of nodes with one
level less. Written, each of them is a balanced text.
-/

namespace LogQuery

namespace FilterTree

variable {t x c : Text} {f : Fragment} {fs gs : List Fragment} {levels : Nat}

/-! ### Filters -/

/-- Linked runs that are one filter. -/
structure IsFilter (x : Text) : Prop where
  fragments : ∃ r fs, Spaced (⟨[], r⟩ :: fs) ∧ Linked (⟨[], r⟩ :: fs) ∧ flatten (⟨[], r⟩ :: fs) = x
  alone : textItems x = [.value (.leaf x)]

theorem Spaced.textItems_append (h : Spaced fs) {g : Text} (hg : ∀ c ∈ g, Text.isBlank c = true) :
    textItems (flatten fs ++ g) = itemsAfter none fs := by
  have none := fragments_blank hg
  rw [textItems, h.ofText_append (by simp [none, StartsApart]), none, List.append_nil]

theorem Spaced.textItems_flatten (h : Spaced fs) :
    textItems (flatten fs) = itemsAfter none fs := by
  have whole := h.textItems_append (g := []) (by simp)
  rwa [List.append_nil] at whole

theorem itemsAfter_some_ne (fs : List Fragment) (c : Text) : itemsAfter (some c) fs ≠ [] := by
  induction fs generalizing c with
  | nil => simp [itemsAfter]
  | cons f fs ih =>
      rw [itemsAfter]
      split_ifs
      · exact ih _
      · simp
      · simp

/-- Fragments that come down to one filter leave it at hand for those behind them. -/
theorem itemsAfter_append {current : Option Text}
    (h : itemsAfter current gs = [.value (.leaf c)]) (fs : List Fragment) :
    itemsAfter current (gs ++ fs) = itemsAfter (some c) fs := by
  induction gs generalizing current with
  | nil =>
      cases current with
      | none => simp [itemsAfter] at h
      | some t =>
          obtain rfl : t = c := by simpa [itemsAfter] using h
          rfl
  | cons g gs ih =>
      cases current with
      | none =>
          rw [itemsAfter] at h
          rw [List.cons_append, itemsAfter]
          split_ifs at h ⊢
          · simp at h
          · exact ih h
      | some t =>
          rw [itemsAfter] at h
          rw [List.cons_append, itemsAfter]
          split_ifs at h ⊢
          · exact ih h
          · simp at h
          · exact absurd (List.cons.inj h).2 (itemsAfter_some_ne _ _)

end FilterTree

namespace FilterNode

/-- A node that reading balanced texts to so many levels gives. -/
inductive IsRead : Nat → FilterNode → Prop
  | leaf {levels : Nat} {x : Text} (h : FilterTree.IsFilter x) : IsRead levels (.leaf x)
  | group {levels : Nat} {vs : List FilterNode} {os : List Text}
      (values : ∀ v ∈ vs, IsRead levels v)
      (operators : ∀ o ∈ os, FilterTree.isOperator o = true)
      (count : os.length = vs.length - 1) : IsRead (levels + 1) (.group vs os)

end FilterNode

namespace FilterTree

variable {t x c : Text} {f : Fragment} {fs gs : List Fragment} {levels : Nat}

/-- An operator, or a node that is read. -/
def Item.IsRead (levels : Nat) : Item → Prop
  | .operator o => isOperator o = true
  | .value v => v.IsRead levels

/-- By induction on the fragments, with no filter at hand and with one at the same time: the
fragments of the filter at hand are linked to those to come. -/
theorem isRead_itemsAfter (spaced : Spaced fs) :
    (Linked fs → ∀ i ∈ itemsAfter none fs, i.IsRead levels) ∧
      ∀ r gs c, Spaced (⟨[], r⟩ :: gs) → itemsAfter none (⟨[], r⟩ :: gs) = [.value (.leaf c)] →
        flatten (⟨[], r⟩ :: gs) = c → StartsApart fs → Linked (⟨[], r⟩ :: gs ++ fs) →
          ∀ i ∈ itemsAfter (some c) fs, i.IsRead levels := by
  have filter {r : Text} {gs : List Fragment} {c : Text} (held : Spaced (⟨[], r⟩ :: gs))
      (linked : Linked (⟨[], r⟩ :: gs))
      (alone : itemsAfter none (⟨[], r⟩ :: gs) = [.value (.leaf c)])
      (whole : flatten (⟨[], r⟩ :: gs) = c) : Item.IsRead levels (.value (.leaf c)) := by
    refine .leaf ⟨⟨r, gs, held, linked, whole⟩, ?_⟩
    rw [← whole, held.textItems_flatten, alone, whole]
  induction spaced with
  | nil =>
      refine ⟨fun _ i hi => by simp [itemsAfter] at hi, ?_⟩
      intro r gs c held alone whole _ linked i hi
      obtain rfl := List.mem_singleton.mp hi
      exact filter held (by simpa using linked) alone whole
  | @cons f fs run gap apart _ ih =>
      have anew (linked : Linked (f :: fs)) : ∀ i ∈ (if isOperator f.text
          then .operator f.text :: itemsAfter none fs else itemsAfter (some f.text) fs),
            i.IsRead levels := by
        split_ifs with operator
        · intro i hi
          rcases List.mem_cons.mp hi with rfl | hi
          · exact operator
          · exact ih.1 linked.tail i hi
        · exact ih.2 f.text [] f.text (.singleton run) (by simp [itemsAfter, operator])
            (by simp) apart linked
      refine ⟨anew, ?_⟩
      intro r gs c held alone whole apart' linked i hi
      rw [itemsAfter] at hi
      split_ifs at hi with joined operator
      · have longer : Spaced (⟨[], r⟩ :: gs ++ [f]) :=
          held.append (.cons run gap (by simp [StartsApart]) .nil) fun _ => by
            simpa [StartsApart] using apart'
        have together : itemsAfter none (⟨[], r⟩ :: gs ++ [f]) =
            [.value (.leaf (c ++ f.gap ++ f.text))] := by
          rw [itemsAfter_append alone, itemsAfter, if_pos joined]
          rfl
        exact ih.2 r (gs ++ [f]) _ longer together (by simp [← whole]) apart (by simpa using linked)
          i hi
      · rcases List.mem_cons.mp hi with rfl | hi
        · exact filter held linked.left alone whole
        · exact anew linked.right i (by rwa [if_pos operator])
      · rcases List.mem_cons.mp hi with rfl | hi
        · exact filter held linked.left alone whole
        · exact anew linked.right i (by rwa [if_neg operator])

/-! ### Trees -/

/-- The node of a group, given its inside. -/
def inner : Nat → Text → FilterNode
  | 0, a => .leaf ('(' :: (a ++ [')']))
  | levels + 1, a => (readWithin levels a).tree.toNode

/-- The items of a piece, given the nodes of groups. -/
def itemsOfPiece (node : Text → FilterNode) : Piece → List Item
  | .text t => textItems t
  | .group a => [.value (node a)]
  | .unbalanced _ => []

def itemsOf (node : Text → FilterNode) (ps : List Piece) : List Item :=
  ps.flatMap (itemsOfPiece node)

theorem readWithin_tree (levels : Nat) (t : Text) :
    (readWithin levels t).tree = ofItems (itemsOf (inner levels) (pieces t)) := by
  have items {group : Text → Item × List TreeError} {node : Text → FilterNode}
      (h : ∀ a, (group a).1 = .value (node a)) (ps : List Piece) :
      (ps.map (pieceItems group)).flatMap Prod.fst = itemsOf node ps := by
    rw [List.flatMap_map, itemsOf]
    refine List.flatMap_congr fun p _ => ?_
    cases p with
    | text t => rfl
    | group a => simp [pieceItems, itemsOfPiece, h]
    | unbalanced position => rfl
  cases levels with
  | zero => exact congrArg ofItems (items (fun a => rfl) _)
  | succ levels => exact congrArg ofItems (items (fun a => rfl) _)

/-- The values are read, and the operators are operators. -/
structure IsReadTree (levels : Nat) (t : FilterTree) : Prop where
  values : ∀ v ∈ t.values, v.IsRead levels
  operators : ∀ o ∈ t.operators, isOperator o = true

theorem IsReadTree.attach {t : FilterTree} (h : IsReadTree levels t) {pending : Option Text}
    (hp : ∀ o ∈ pending, isOperator o = true) {items : List Item}
    (hi : ∀ i ∈ items, i.IsRead levels) : IsReadTree levels (attach t pending items) := by
  induction items generalizing t pending with
  | nil => exact h
  | cons item items ih =>
      have first := hi item List.mem_cons_self
      have rest := fun i hm => hi i (List.mem_cons_of_mem _ hm)
      cases item with
      | operator o =>
          have operator : isOperator o = true := first
          exact ih h (by simpa using operator) rest
      | value v =>
          refine ih ⟨?_, ?_⟩ (by simp) rest
          · intro w hw
            rcases List.mem_append.mp hw with hw | hw
            · exact h.values w hw
            · rw [List.mem_singleton.mp hw]
              exact first
          · intro o ho
            dsimp only at ho
            split at ho
            · exact h.operators o ho
            · rcases List.mem_append.mp ho with ho | ho
              · exact h.operators o ho
              · rw [List.mem_singleton.mp ho]
                exact isOperator_getD hp

theorem isReadTree_readWithin_of (node : ∀ a, IsNested a → (inner levels a).IsRead levels)
    (h : IsNested t) : IsReadTree levels (readWithin levels t).tree := by
  rw [readWithin_tree]
  refine IsReadTree.attach ⟨by simp, by simp⟩ (by simp) fun i hi => ?_
  obtain ⟨p, hp, hi⟩ := List.mem_flatMap.mp hi
  cases isWhole_pieces h p hp with
  | text spaced linked blank =>
      rw [itemsOfPiece, spaced.textItems_append blank] at hi
      exact (isRead_itemsAfter spaced).1 linked i hi
  | group nested =>
      rw [List.mem_singleton.mp hi]
      exact node _ nested

theorem isFilter_bracket {a : Text} (h : IsNested a) : IsFilter ('(' :: (a ++ [')'])) := by
  have run : IsRun ('(' :: (a ++ [')'])) := .atom (.bracket h)
  have spaced := Spaced.singleton run
  refine ⟨⟨_, _, spaced, by simp [Linked], by simp⟩, ?_⟩
  have alone := spaced.textItems_flatten
  simpa [itemsAfter, isOperator, Text.sameFold] using alone

/-- By induction on the levels: a group is the tree of its inside. -/
theorem isRead_inner (levels : Nat) {a : Text} (h : IsNested a) :
    (inner levels a).IsRead levels := by
  induction levels generalizing a with
  | zero => exact .leaf (isFilter_bracket h)
  | succ levels ih =>
      obtain ⟨values, operators⟩ := isReadTree_readWithin_of (fun b hb => ih hb) h
      exact .group values operators (isConsistent_iff.mp (isConsistent_readWithin levels a)).1

/-- The values of the tree of a balanced text. -/
theorem isReadTree_readWithin (levels : Nat) (h : IsNested t) :
    IsReadTree levels (readWithin levels t).tree :=
  isReadTree_readWithin_of (fun _ => isRead_inner levels) h

theorem nested_text {v : FilterNode} (h : v.IsRead levels) : IsNested v.text := by
  induction h with
  | leaf h =>
      obtain ⟨r, fs, spaced, -, rfl⟩ := h.fragments
      rw [FilterNode.text]
      exact spaced.nested
  | group _ operators _ ih =>
      rw [FilterNode.text]
      exact .bracket (joinText_of .of_plain .append ih operators) .nil

theorem nested_joinText {vs : List FilterNode} {os : List Text}
    (values : ∀ v ∈ vs, v.IsRead levels) (operators : ∀ o ∈ os, isOperator o = true) :
    IsNested (FilterNode.joinText vs os) :=
  joinText_of .of_plain .append (fun v hv => nested_text (values v hv)) operators

end FilterTree

end LogQuery
