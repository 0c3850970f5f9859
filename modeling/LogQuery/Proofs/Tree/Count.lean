import LogQuery.Tree.Edit

/-!
# The count of operators

Every group of a filter tree has one operator fewer than values, or none where it has no
values. Reading makes such trees from any text: an operator is kept only between two values, and
where it is missing one is put in. Each edit changes one group, and the groups on the way to it
keep their length, so the count holds in all groups after any number of edits.
-/

namespace LogQuery

namespace FilterNode

theorem allConsistent_iff {vs : List FilterNode} :
    allConsistent vs = true ↔ ∀ v ∈ vs, v.isConsistent = true := by
  induction vs with
  | nil => simp [allConsistent]
  | cons v vs ih => simp [allConsistent, ih]

@[simp] theorem isConsistent_leaf (t : Text) : (leaf t).isConsistent = true := by
  simp [isConsistent]

theorem isConsistent_group_iff {vs : List FilterNode} {os : List Text} :
    (group vs os).isConsistent = true ↔
      os.length = vs.length - 1 ∧ ∀ v ∈ vs, v.isConsistent = true := by
  simp [isConsistent, allConsistent_iff]

end FilterNode

namespace FilterTree

variable {t g : FilterTree} {v : FilterNode} {path : List Nat}

theorem isConsistent_iff : t.isConsistent = true ↔
    t.operators.length = t.values.length - 1 ∧ ∀ v ∈ t.values, v.isConsistent = true :=
  FilterNode.isConsistent_group_iff

theorem isConsistent_empty : ({} : FilterTree).isConsistent = true := by
  simp [isConsistent_iff]

theorem isConsistent_ofNode (h : v.isConsistent = true) : (ofNode v).isConsistent = true := by
  cases v with
  | leaf t => exact isConsistent_empty
  | group vs os => exact h

/-! ### Groups at any depth -/

/-- The group that a path of indices leads to. A text is no group. -/
def group? : List Nat → FilterTree → Option FilterTree
  | [], t => some t
  | i :: path, t =>
    match t.values[i]? with
    | some (.group values operators) => group? path { values, operators }
    | _ => none

theorem isConsistent_of_group? (h : t.isConsistent = true) (hg : t.group? path = some g) :
    g.isConsistent = true := by
  induction path generalizing t with
  | nil =>
      obtain rfl := Option.some.inj hg
      exact h
  | cons i path ih =>
      rw [group?] at hg
      split at hg
      · next vs os heq =>
        exact ih ((isConsistent_iff.mp h).2 _ (List.mem_of_getElem? heq)) hg
      · contradiction

/-! ### Reading -/

/-- The values among the items are consistent. -/
def ItemsConsistent (items : List Item) : Prop :=
  ∀ v, .value v ∈ items → v.isConsistent = true

theorem isConsistent_attach {items : List Item} (h : t.isConsistent = true)
    (hitems : ItemsConsistent items) (pending : Option Text) :
    (attach t pending items).isConsistent = true := by
  induction items generalizing t pending with
  | nil => exact h
  | cons item items ih =>
      have rest : ItemsConsistent items := fun w hw => hitems w (List.mem_cons_of_mem _ hw)
      cases item with
      | operator o => exact ih h rest (some o)
      | value v =>
          refine ih ?_ rest none
          obtain ⟨count, all⟩ := isConsistent_iff.mp h
          have first : v.isConsistent = true := hitems v List.mem_cons_self
          refine isConsistent_iff.mpr ⟨?_, ?_⟩
          · cases values : t.values with
            | nil => simpa [values] using count
            | cons w ws => simpa [values] using count
          · intro w hw
            rcases List.mem_append.mp hw with hw | hw
            · exact all w hw
            · rw [List.mem_singleton.mp hw]
              exact first

/-- Between groups all values are texts. -/
theorem itemsConsistent_itemsAfter (fs : List Fragment) (current : Option Text) :
    ItemsConsistent (itemsAfter current fs) := by
  have leaf {items : List Item} (h : ItemsConsistent items) (t : Text) :
      ItemsConsistent (.value (.leaf t) :: items) := by
    intro v hv
    rcases List.mem_cons.mp hv with hv | hv
    · rw [Item.value.inj hv]
      exact FilterNode.isConsistent_leaf t
    · exact h v hv
  have operator {items : List Item} (h : ItemsConsistent items) (o : Text) :
      ItemsConsistent (.operator o :: items) :=
    fun v hv => h v (by simpa using hv)
  induction fs generalizing current with
  | nil =>
      cases current with
      | none => exact fun v hv => absurd hv List.not_mem_nil
      | some t => exact leaf (fun v hv => absurd hv List.not_mem_nil) t
  | cons f fs ih =>
      cases current with
      | none =>
          rw [itemsAfter]
          split
          · exact operator (ih none) f.text
          · exact ih _
      | some t =>
          rw [itemsAfter]
          split
          · exact ih _
          · refine leaf ?_ t
            split
            · exact operator (ih none) f.text
            · exact ih _

theorem isConsistent_ofPieces {group : Text → Item × List TreeError}
    (h : ∀ inner v, (group inner).1 = .value v → v.isConsistent = true) (ps : List Piece) :
    (ofPieces group ps).tree.isConsistent = true := by
  refine isConsistent_attach isConsistent_empty ?_ none
  intro v hv
  simp only [List.mem_flatMap, List.mem_map] at hv
  obtain ⟨-, ⟨p, -, rfl⟩, hv⟩ := hv
  cases p with
  | text t => exact itemsConsistent_itemsAfter _ none v hv
  | group inner => exact h inner v (List.mem_singleton.mp hv).symm
  | unbalanced position => exact absurd hv List.not_mem_nil

theorem isConsistent_readWithin (levels : Nat) (text : Text) :
    (readWithin levels text).tree.isConsistent = true := by
  induction levels generalizing text with
  | zero =>
      refine isConsistent_ofPieces (fun inner v hv => ?_) _
      rw [← Item.value.inj hv]
      exact FilterNode.isConsistent_leaf _
  | succ levels ih =>
      refine isConsistent_ofPieces (fun inner v hv => ?_) _
      rw [← Item.value.inj hv]
      exact ih inner

theorem isConsistent_ofText (text : Text) : (ofText text).isConsistent = true := by
  rw [ofText, read]
  split
  · exact isConsistent_readWithin _ text
  · exact isConsistent_readWithin _ text

/-! ### Editing -/

theorem isConsistent_push (h : t.isConsistent = true) (hv : v.isConsistent = true)
    (operator : Text) : (t.push v operator).isConsistent = true := by
  have single : ItemsConsistent [.value v] := by
    intro w hw
    rwa [Item.value.inj (List.mem_singleton.mp hw)]
  exact isConsistent_attach h single (some operator)

/-- Putting a consistent value in the place of another changes no count. -/
theorem isConsistent_set (h : t.isConsistent = true) (hv : v.isConsistent = true) (i : Nat) :
    ({ t with values := t.values.set i v } : FilterTree).isConsistent = true := by
  obtain ⟨count, all⟩ := isConsistent_iff.mp h
  refine isConsistent_iff.mpr ⟨by simpa using count, fun w hw => ?_⟩
  rcases List.mem_or_eq_of_mem_set hw with hw | rfl
  · exact all w hw
  · exact hv

theorem isConsistent_setValue (text : Text) (path : List Nat) (h : t.isConsistent = true) :
    (setValue text path t).isConsistent = true := by
  fun_induction setValue text path t with
  | case1 t => exact h
  | case2 i t inside => exact isConsistent_set h (FilterNode.isConsistent_leaf text) i
  | case3 t outside => exact isConsistent_push h (FilterNode.isConsistent_leaf text) _
  | case4 i t outside behind => exact h
  | case5 i path t several missing => exact h
  | case6 i path t several node found ih =>
      have inner : node.isConsistent = true :=
        (isConsistent_iff.mp h).2 node (List.mem_of_getElem? found)
      exact isConsistent_set h (ih (isConsistent_ofNode inner)) i

theorem isConsistent_modifyGroup {f : FilterTree → FilterTree}
    (keeps : ∀ g, g.isConsistent = true → (f g).isConsistent = true) (path : List Nat)
    (h : t.isConsistent = true) : (modifyGroup f path t).isConsistent = true := by
  induction path generalizing t with
  | nil => exact keeps t h
  | cons i path ih =>
      rw [modifyGroup]
      split
      · next vs os found =>
        have inner : ({ values := vs, operators := os } : FilterTree).isConsistent = true :=
          (isConsistent_iff.mp h).2 _ (List.mem_of_getElem? found)
        exact isConsistent_set h (ih inner) i
      · exact h

theorem isConsistent_modifyParent {f : Nat → FilterTree → FilterTree}
    (keeps : ∀ i g, g.isConsistent = true → (f i g).isConsistent = true) (path : List Nat)
    (h : t.isConsistent = true) : (modifyParent f path t).isConsistent = true := by
  rw [modifyParent]
  split
  · exact h
  · next i _ => exact isConsistent_modifyGroup (keeps i) _ h

theorem isConsistent_setOperator (operator : Text) (path : List Nat) (h : t.isConsistent = true) :
    (setOperator operator path t).isConsistent = true := by
  refine isConsistent_modifyParent (fun i g hg => ?_) path h
  obtain ⟨count, all⟩ := isConsistent_iff.mp hg
  exact isConsistent_iff.mpr ⟨by simpa using count, all⟩

/-- The first value goes with the operator behind it, any other with the one before it. -/
theorem isConsistent_erase (i : Nat) (h : g.isConsistent = true) :
    (g.erase i).isConsistent = true := by
  obtain ⟨count, all⟩ := isConsistent_iff.mp h
  rw [erase]
  split
  · next inside =>
    refine isConsistent_iff.mpr ⟨?_, fun v hv => all v (List.mem_of_mem_eraseIdx hv)⟩
    rw [List.length_eraseIdx, List.length_eraseIdx, if_pos inside]
    split <;> omega
  · exact h

theorem isConsistent_delete (path : List Nat) (h : t.isConsistent = true) :
    (delete path t).isConsistent = true :=
  isConsistent_modifyParent (fun i _ hg => isConsistent_erase i hg) path h

theorem isConsistent_add (hv : v.isConsistent = true) (operator : Text) (path : List Nat)
    (h : t.isConsistent = true) : (add v operator path t).isConsistent = true :=
  isConsistent_modifyGroup (fun _ hg => isConsistent_push hg hv operator) path h

/-! ### Sessions -/

/-- A change that an editor makes. -/
inductive Edit
  | setValue (text : Text) (path : List Nat)
  | setOperator (operator : Text) (path : List Nat)
  | delete (path : List Nat)
  | add (value : FilterNode) (operator : Text) (path : List Nat)

namespace Edit

def apply (t : FilterTree) : Edit → FilterTree
  | setValue text path => t.setValue text path
  | setOperator operator path => t.setOperator operator path
  | delete path => t.delete path
  | add value operator path => t.add value operator path

/-- A value that the edit adds is consistent. -/
def IsConsistent : Edit → Prop
  | add value _ _ => value.isConsistent = true
  | _ => True

end Edit

/-- The tree that editing starts from, and the tree after each edit. -/
def session (t : FilterTree) (edits : List Edit) : List FilterTree := edits.scanl Edit.apply t

theorem isConsistent_apply {e : Edit} (h : t.isConsistent = true) (he : e.IsConsistent) :
    (e.apply t).isConsistent = true := by
  cases e with
  | setValue text path => exact isConsistent_setValue text path h
  | setOperator operator path => exact isConsistent_setOperator operator path h
  | delete path => exact isConsistent_delete path h
  | add value operator path => exact isConsistent_add he operator path h

theorem isConsistent_of_mem_session {edits : List Edit} (h : t.isConsistent = true)
    (hedits : ∀ e ∈ edits, e.IsConsistent) : ∀ u ∈ t.session edits, u.isConsistent = true := by
  induction edits generalizing t with
  | nil => simpa [session] using h
  | cons e edits ih =>
      have next := ih (isConsistent_apply h (hedits e List.mem_cons_self))
        fun d hd => hedits d (List.mem_cons_of_mem _ hd)
      rw [session, List.scanl_cons]
      simpa [session] using ⟨h, next⟩

/-- After every edit of the tree of any text, each group at any depth has one operator fewer
than values, or has neither. -/
theorem count_operators_session (text : Text) {edits : List Edit}
    (h : ∀ e ∈ edits, e.IsConsistent) :
    ∀ t ∈ (ofText text).session edits, t.isConsistent = true ∧
      ∀ path g, t.group? path = some g →
        g.values = [] ∧ g.operators = [] ∨ g.operators.length + 1 = g.values.length := by
  intro t ht
  have consistent := isConsistent_of_mem_session (isConsistent_ofText text) h t ht
  refine ⟨consistent, fun path g hg => ?_⟩
  obtain ⟨count, -⟩ := isConsistent_iff.mp (isConsistent_of_group? consistent hg)
  cases values : g.values with
  | nil => exact .inl ⟨rfl, List.length_eq_zero_iff.mp (by simpa [values] using count)⟩
  | cons v vs => exact .inr (by simpa [values] using count)

/-- A session that turns a text into a group, adds a group to that one, deletes in it and sets
an operator that is not there. -/
theorem count_operators_session_through_text :
    let edits : List Edit :=
      [.setValue "x" [1, 0], .add (.group [.leaf "d", .leaf "e"] ["OR"]) "AND" [1],
        .delete [1, 0], .setOperator "OR" [1, 9]]
    (∀ e ∈ edits, e.IsConsistent) ∧
      ∀ t ∈ (ofText "(a b) or c").session edits, t.isConsistent = true ∧
        ∀ path g, t.group? path = some g →
          g.values = [] ∧ g.operators = [] ∨ g.operators.length + 1 = g.values.length := by
  intro edits
  have added : ∀ e ∈ edits, e.IsConsistent := by
    simp [edits, Edit.IsConsistent, FilterNode.isConsistent_group_iff]
  exact ⟨added, count_operators_session "(a b) or c" added⟩

end FilterTree

end LogQuery
