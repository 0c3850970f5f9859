import LogQuery.Proofs.Tree.Count

/-!
# Edits at a path

An edit changes the group that its path leads to and goes past all others on the way. What a
group holds by itself is its texts and operators and where groups stand among them, so an edit
inside one of its groups leaves it as it is. Two edits of the same group are one edit of it, so
an edit is undone if it is undone in that group alone.

A deleted value takes all groups in it along, and the values behind it move up by one. Every
other group stands where it stood.
-/

namespace LogQuery

/-- The text of a filter. A group has none by itself. -/
def FilterNode.leaf? : FilterNode → Option Text
  | leaf t => some t
  | group _ _ => none

namespace FilterTree

variable {t u g : FilterTree} {v : FilterNode} {vs : List FilterNode} {os : List Text}
  {i j : Nat} {path other rest : List Nat} {f : FilterTree → FilterTree}

/-! ### Groups and what they hold -/

/-- The texts that a group holds by itself, with a gap for each group among its values, and its
operators. -/
def own (g : FilterTree) : List (Option Text) × List Text :=
  (g.values.map FilterNode.leaf?, g.operators)

/-- An index leads to a group, or no path through it leads anywhere. -/
theorem index_cases (t : FilterTree) (i : Nat) :
    (∃ vs os, t.values[i]? = some (.group vs os)) ∨
      ∀ path, t.group? (i :: path) = none ∧ ∀ f, modifyGroup f (i :: path) t = t := by
  cases found : t.values[i]? with
  | none =>
      right
      intro path
      simp [group?, modifyGroup, found]
  | some v =>
      cases v with
      | leaf x =>
          right
          intro path
          simp [group?, modifyGroup, found]
      | group vs os => exact .inl ⟨vs, os, rfl⟩

theorem group?_cons (found : t.values[i]? = some (.group vs os)) (path : List Nat) :
    t.group? (i :: path) = group? path ⟨vs, os⟩ := by
  simp [group?, found]

/-- Which groups a path leads to is a matter of the value that it starts with. -/
theorem group?_cons_congr (same : t.values[i]? = u.values[j]?) (path : List Nat) :
    t.group? (i :: path) = u.group? (j :: path) := by
  simp only [group?, same]

theorem lt_of_group?_cons (found : t.group? (i :: path) = some g) : i < t.values.length := by
  rcases t.index_cases i with ⟨vs, os, here⟩ | nowhere
  · exact (List.getElem?_eq_some_iff.mp here).1
  · rw [(nowhere path).1] at found
    contradiction

theorem group?_append (path rest : List Nat) (t : FilterTree) :
    t.group? (path ++ rest) = (t.group? path).bind (group? rest) := by
  induction path generalizing t with
  | nil => rfl
  | cons i path ih =>
      rcases t.index_cases i with ⟨vs, os, found⟩ | nowhere
      · rw [List.cons_append, group?_cons found, group?_cons found]
        exact ih _
      · rw [List.cons_append, (nowhere _).1, (nowhere _).1]
        rfl

/-! ### Changing a group -/

theorem modifyGroup_cons (found : t.values[i]? = some (.group vs os))
    (f : FilterTree → FilterTree) (path : List Nat) :
    modifyGroup f (i :: path) t =
      { t with values := t.values.set i (modifyGroup f path ⟨vs, os⟩).toNode } := by
  simp [modifyGroup, found]

theorem values_modifyGroup_cons (found : t.values[i]? = some (.group vs os))
    (f : FilterTree → FilterTree) (path : List Nat) :
    (modifyGroup f (i :: path) t).values[i]? = some (modifyGroup f path ⟨vs, os⟩).toNode := by
  have inside : i < t.values.length := (List.getElem?_eq_some_iff.mp found).1
  simp [modifyGroup_cons found, inside]

/-- The group at the path is changed, and all groups in it with it. -/
theorem group?_modifyGroup_append (f : FilterTree → FilterTree) (path rest : List Nat)
    (t : FilterTree) :
    (modifyGroup f path t).group? (path ++ rest) =
      (t.group? path).bind fun g => (f g).group? rest := by
  induction path generalizing t with
  | nil => rfl
  | cons i path ih =>
      rcases t.index_cases i with ⟨vs, os, found⟩ | nowhere
      · rw [List.cons_append, group?_cons (values_modifyGroup_cons found f path),
          group?_cons found]
        exact ih _
      · rw [(nowhere path).2, List.cons_append, (nowhere _).1, (nowhere _).1]
        rfl

theorem group?_modifyGroup (f : FilterTree → FilterTree) (path : List Nat) (t : FilterTree) :
    (modifyGroup f path t).group? path = (t.group? path).map f := by
  have changed := group?_modifyGroup_append f path [] t
  rw [List.append_nil] at changed
  rw [changed]
  cases t.group? path <;> rfl

/-- A group that is changed inside one of its groups holds what it held. -/
theorem own_set (found : t.values[i]? = some (.group vs os)) (inner : FilterTree) :
    own { t with values := t.values.set i inner.toNode } = own t := by
  have gap : (t.values.map FilterNode.leaf?)[i]? = some none := by
    simp [found, FilterNode.leaf?]
  have kept : (t.values.map FilterNode.leaf?).set i none = t.values.map FilterNode.leaf? := by
    obtain ⟨inside, eq⟩ := List.getElem?_eq_some_iff.mp gap
    rw [← eq]
    exact List.set_getElem_self inside
  simp only [own, List.map_set]
  rw [← kept]
  simp [toNode, FilterNode.leaf?]

/-- By induction on the path: it parts from the other one at some index, or ends inside of it. -/
theorem own_group?_modifyGroup (f : FilterTree → FilterTree) (apart : ¬ path <+: other)
    (found : t.group? other = some g) :
    ∃ g', (modifyGroup f path t).group? other = some g' ∧ g'.own = g.own := by
  induction path generalizing t other with
  | nil => exact absurd List.nil_prefix apart
  | cons i path ih =>
      rcases t.index_cases i with ⟨vs, os, here⟩ | nowhere
      · cases other with
        | nil =>
            obtain rfl : t = g := Option.some.inj found
            refine ⟨modifyGroup f (i :: path) t, rfl, ?_⟩
            rw [modifyGroup_cons here]
            exact own_set here _
        | cons j other =>
            by_cases same : j = i
            · subst same
              rw [group?_cons here] at found
              rw [group?_cons (values_modifyGroup_cons here f path)]
              apply ih _ found
              intro front
              exact apart (List.prefix_cons_inj j |>.mpr front)
            · refine ⟨g, ?_, rfl⟩
              rw [← found, modifyGroup_cons here]
              apply group?_cons_congr
              exact List.getElem?_set_ne (Ne.symm same)
      · rw [(nowhere path).2]
        exact ⟨g, found, rfl⟩

/-! ### Two changes of one group -/

theorem set_toNode (found : t.values[i]? = some (.group vs os)) :
    ({ t with values := t.values.set i (toNode ⟨vs, os⟩) } : FilterTree) = t := by
  obtain ⟨inside, eq⟩ := List.getElem?_eq_some_iff.mp found
  have kept : t.values.set i (toNode ⟨vs, os⟩) = t.values := by
    rw [toNode, ← eq]
    exact List.set_getElem_self inside
  rw [kept]

/-- What leaves the group at the path as it is leaves the whole tree as it is. -/
theorem modifyGroup_eq_self (fixed : ∀ g, t.group? path = some g → f g = g) :
    modifyGroup f path t = t := by
  induction path generalizing t with
  | nil => exact fixed t rfl
  | cons i path ih =>
      rcases t.index_cases i with ⟨vs, os, found⟩ | nowhere
      · have inner : modifyGroup f path ⟨vs, os⟩ = ⟨vs, os⟩ := by
          apply ih
          intro g hg
          apply fixed
          rwa [group?_cons found]
        rw [modifyGroup_cons found, inner]
        exact set_toNode found
      · exact (nowhere path).2 f

theorem modifyGroup_modifyGroup (f h : FilterTree → FilterTree) (path : List Nat)
    (t : FilterTree) :
    modifyGroup h path (modifyGroup f path t) = modifyGroup (fun g => h (f g)) path t := by
  induction path generalizing t with
  | nil => rfl
  | cons i path ih =>
      rcases t.index_cases i with ⟨vs, os, found⟩ | nowhere
      · have inner := ih ⟨vs, os⟩
        rw [modifyGroup_cons (values_modifyGroup_cons found f path), modifyGroup_cons found,
          modifyGroup_cons found]
        change ({ t with values := (t.values.set i _).set i (modifyGroup h path _).toNode } :
          FilterTree) = _
        rw [inner, List.set_set]
      · rw [(nowhere path).2, (nowhere path).2, (nowhere path).2]

/-! ### Adding and deleting -/

theorem modifyParent_concat (f : Nat → FilterTree → FilterTree) (path : List Nat) (i : Nat)
    (t : FilterTree) : modifyParent f (path ++ [i]) t = modifyGroup (f i) path t := by
  simp [modifyParent]

/-- The last value goes with the operator in front of it, which is the one that came with it. -/
theorem erase_push (count : g.operators.length = g.values.length - 1) (v : FilterNode)
    (operator : Text) : (g.push v operator).erase g.values.length = g := by
  obtain ⟨values, operators⟩ := g
  cases values with
  | nil =>
      obtain rfl : operators = [] := List.length_eq_zero_iff.mp count
      rfl
  | cons w ws =>
      have last : ws.length = operators.length := count.symm
      simp [push, erase, last, List.eraseIdx_append_of_length_le]

/-- A value that was added to a group is deleted again by its index. -/
theorem delete_add (consistent : t.isConsistent = true) (found : t.group? path = some g)
    (v : FilterNode) (operator : Text) :
    (t.add v operator path).delete (path ++ [g.values.length]) = t := by
  rw [delete, modifyParent_concat, add, modifyGroup_modifyGroup]
  apply modifyGroup_eq_self
  intro g' found'
  obtain rfl : g = g' := Option.some.inj (found.symm.trans found')
  exact erase_push (isConsistent_iff.mp (isConsistent_of_group? consistent found)).1 v operator

/-! ### The other groups -/

/-- Where a group stands once the value at the index in the group at the path is deleted. A group
in that value is gone, and one in a later value has moved up. -/
def pathWithout (i : Nat) : List Nat → List Nat → Option (List Nat)
  | [], j :: rest => if j = i then none else some ((if i < j then j - 1 else j) :: rest)
  | k :: path, j :: rest =>
      if j = k then (pathWithout i path rest).map (j :: ·) else some (j :: rest)
  | _, [] => some []

theorem pathWithout_append (i j : Nat) (path rest : List Nat) :
    pathWithout i path (path ++ j :: rest) =
      if j = i then none else some (path ++ (if i < j then j - 1 else j) :: rest) := by
  induction path with
  | nil => simp [pathWithout]
  | cons k path ih =>
      rw [List.cons_append, pathWithout, if_pos rfl, ih]
      split <;> rfl

theorem pathWithout_of_not_prefix (i : Nat) (apart : ¬ path <+: other) :
    pathWithout i path other = some other := by
  induction path generalizing other with
  | nil => exact absurd List.nil_prefix apart
  | cons k path ih =>
      cases other with
      | nil => rfl
      | cons j other =>
          rw [pathWithout]
          split
          · next same =>
            subst same
            rw [ih fun front => apart ((List.prefix_cons_inj j).mpr front)]
            rfl
          · rfl

/-- An edit at `path`, `moved` saying where it leaves the groups: the group there is changed, and
all others hold what they held. -/
structure ChangesOnly (t u : FilterTree) (path : List Nat) (change : FilterTree → FilterTree)
    (moved : List Nat → Option (List Nat)) : Prop where
  changed : u.group? path = (t.group? path).map change
  others : ∀ other g, other ≠ path → t.group? other = some g →
    ∀ place ∈ moved other, ∃ g', u.group? place = some g' ∧ g'.own = g.own

/-- It is enough to look at the groups in the group that is changed. -/
theorem changesOnly_modifyGroup {moved : List Nat → Option (List Nat)}
    (outside : ∀ other, ¬ path <+: other → moved other = some other)
    (inside : ∀ g g' j rest, t.group? path = some g → g.group? (j :: rest) = some g' →
      ∀ place ∈ moved (path ++ j :: rest),
        ∃ k, place = path ++ k :: rest ∧ (f g).group? (k :: rest) = some g') :
    ChangesOnly t (modifyGroup f path t) path f moved := by
  refine ⟨group?_modifyGroup f path t, ?_⟩
  intro other g' different found place moves
  by_cases front : path <+: other
  · obtain ⟨rest, rfl⟩ := front
    cases rest with
    | nil => simp at different
    | cons j rest =>
        rw [group?_append, Option.bind_eq_some_iff] at found
        obtain ⟨g, here, found⟩ := found
        obtain ⟨k, rfl, still⟩ := inside g g' j rest here found place moves
        refine ⟨g', ?_, rfl⟩
        rw [group?_modifyGroup_append, here]
        exact still
  · rw [outside other front] at moves
    obtain rfl := Option.some.inj moves
    exact own_group?_modifyGroup f front found

theorem changesOnly_add (t : FilterTree) (path : List Nat) (v : FilterNode) (operator : Text) :
    ChangesOnly t (t.add v operator path) path (fun g => g.push v operator) some := by
  refine changesOnly_modifyGroup (fun _ _ => rfl) ?_
  intro g g' j rest _ found place moves
  obtain rfl := Option.some.inj moves
  refine ⟨j, rfl, ?_⟩
  rw [← found]
  apply group?_cons_congr
  exact List.getElem?_append_left (lt_of_group?_cons found)

theorem changesOnly_setOperator (t : FilterTree) (path : List Nat) (i : Nat) (operator : Text) :
    ChangesOnly t (t.setOperator operator (path ++ [i])) path
      (fun g => { g with operators := g.operators.set i operator }) some := by
  rw [setOperator, modifyParent_concat]
  refine changesOnly_modifyGroup (fun _ _ => rfl) ?_
  intro g g' j rest _ found place moves
  obtain rfl := Option.some.inj moves
  exact ⟨j, rfl, found⟩

/-- The groups in later values move up by one. -/
theorem group?_erase (other : j ≠ i) (found : g.group? (j :: rest) = some t) :
    (g.erase i).group? ((if i < j then j - 1 else j) :: rest) = some t := by
  have here : j < g.values.length := lt_of_group?_cons found
  by_cases inside : i < g.values.length
  · rw [erase, if_pos inside, ← found]
    apply group?_cons_congr
    change (g.values.eraseIdx i)[_]? = g.values[j]?
    rw [List.getElem?_eraseIdx]
    by_cases later : i < j
    · have next : j - 1 + 1 = j := by omega
      rw [if_pos later, if_neg (by omega), next]
    · rw [if_neg later, if_pos (by omega)]
  · rw [erase, if_neg inside, if_neg (by omega)]
    exact found

theorem changesOnly_delete (t : FilterTree) (path : List Nat) (i : Nat) :
    ChangesOnly t (t.delete (path ++ [i])) path (erase i) (pathWithout i path) := by
  rw [delete, modifyParent_concat]
  refine changesOnly_modifyGroup (fun _ => pathWithout_of_not_prefix i) ?_
  intro g g' j rest _ found place moves
  rw [pathWithout_append, Option.mem_def] at moves
  split at moves
  · contradiction
  · next other =>
    obtain rfl := Option.some.inj moves
    exact ⟨_, rfl, group?_erase other found⟩

/-- A value added to a group of a consistent tree is deleted again without a trace, and the three
edits of a group change no other group: none holds other texts or operators than before. -/
theorem delete_add_and_changesOnly (t : FilterTree) (path : List Nat) (value : FilterNode)
    (operator : Text) :
    (∀ g, t.isConsistent = true → t.group? path = some g →
        (t.add value operator path).delete (path ++ [g.values.length]) = t) ∧
      ChangesOnly t (t.add value operator path) path (fun g => g.push value operator) some ∧
      (∀ i, ChangesOnly t (t.setOperator operator (path ++ [i])) path
          (fun g => { g with operators := g.operators.set i operator }) some ∧
        ChangesOnly t (t.delete (path ++ [i])) path (erase i) (pathWithout i path)) ∧
      t.setOperator operator [] = t ∧ t.delete [] = t := by
  refine ⟨?_, changesOnly_add t path value operator, ?_, rfl, rfl⟩
  · intro g consistent found
    exact delete_add consistent found value operator
  · intro i
    exact ⟨changesOnly_setOperator t path i operator, changesOnly_delete t path i⟩

/-- A group of two values between others: one added to it and deleted again, and the value in
front of it deleted, which moves the group. -/
theorem delete_add_and_changesOnly_group :
    let g : FilterTree := ⟨[.leaf "c", .leaf "d"], ["OR"]⟩
    let t : FilterTree := ⟨[.group [.leaf "a"] [], .leaf "b", g.toNode], ["AND", "OR"]⟩
    t.isConsistent = true ∧ t.group? [2] = some g ∧
      (t.add (.leaf "x") "AND" [2]).delete [2, 2] = t ∧
      ∃ g', (t.delete [0]).group? [1] = some g' ∧ g'.own = g.own := by
  intro g t
  have consistent : t.isConsistent = true := by decide
  have found : t.group? [2] = some g := rfl
  obtain ⟨undone, -⟩ := delete_add_and_changesOnly t [2] (.leaf "x") "AND"
  obtain ⟨-, -, local', -⟩ := delete_add_and_changesOnly t [] (.leaf "x") "AND"
  refine ⟨consistent, found, undone g consistent found, ?_⟩
  exact (local' 0).2.others [2] g (by decide) found [1] rfl

end FilterTree

end LogQuery
