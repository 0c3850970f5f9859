import LogQuery.Proofs.Tree.Locality

/-!
# Values at paths out of range

A value is written where a path leads to a value, or right behind the last one. A path that ends
further out, or that loses its way before its last index, has nothing to write. On its way it
takes a text for a group without values, and puts that group where the text was: this happens
before the rest of the path is looked at. So such a path leaves the tree as it is if and only if
it goes through no text; if it does, that text is lost and all else is as before.
-/

namespace LogQuery.FilterTree

variable {t g : FilterTree} {v : FilterNode} {i : Nat} {path rest parent : List Nat}

/-- The node that a path leads to, where a text is a group without values. -/
def reach : List Nat → FilterTree → Option FilterTree
  | [], t => some t
  | i :: path, t => t.values[i]?.bind fun v => reach path (ofNode v)

/-- An index before the last one is out of range, or the last one lies behind the place where a
value is added. -/
def IsOutOfRange (path : List Nat) (t : FilterTree) : Prop :=
  ∃ front last, path = front ++ [last] ∧ ∀ g ∈ t.reach front, g.values.length < last

/-- The path goes on behind the text at the index in the group at `parent`. -/
structure IsThroughText (t : FilterTree) (parent : List Nat) (i : Nat) (path : List Nat) :
    Prop where
  beyond : ∃ rest, rest ≠ [] ∧ path = parent ++ i :: rest
  text : ∃ g x, t.group? parent = some g ∧ g.values[i]? = some (.leaf x)

/-- Puts a group without values in the place of a value. -/
def emptied (i : Nat) (g : FilterTree) : FilterTree :=
  { g with values := g.values.set i (toNode {}) }

/-! ### The first index -/

theorem isOutOfRange_singleton : IsOutOfRange [i] t ↔ t.values.length < i := by
  constructor
  · rintro ⟨front, last, split, behind⟩
    obtain ⟨rfl, rfl⟩ : front = [] ∧ i = last := by
      cases front with
      | nil => simpa using split
      | cons j front => simp at split
    exact behind t rfl
  · intro behind
    refine ⟨[], i, rfl, ?_⟩
    intro g hg
    obtain rfl := Option.some.inj hg
    exact behind

theorem isOutOfRange_cons (more : path ≠ []) (found : t.values[i]? = some v) :
    IsOutOfRange (i :: path) t ↔ IsOutOfRange path (ofNode v) := by
  have onward (front : List Nat) : t.reach (i :: front) = reach front (ofNode v) := by
    simp [reach, found]
  constructor
  · rintro ⟨front, last, split, behind⟩
    cases front with
    | nil => exact absurd (List.cons.inj split).2 more
    | cons j front =>
        obtain ⟨rfl, rest⟩ := List.cons.inj split
        refine ⟨front, last, rest, ?_⟩
        rwa [onward] at behind
  · rintro ⟨front, last, rfl, behind⟩
    refine ⟨i :: front, last, rfl, ?_⟩
    rwa [onward]

theorem setValue_cons (more : path ≠ []) (found : t.values[i]? = some v) (text : Text) :
    setValue text (i :: path) t =
      { t with values := t.values.set i (setValue text path (ofNode v)).toNode } := by
  cases path with
  | nil => contradiction
  | cons j path => simp [setValue, found]

theorem setValue_missing (more : path ≠ []) (missing : t.values[i]? = none) (text : Text) :
    setValue text (i :: path) t = t := by
  cases path with
  | nil => contradiction
  | cons j path => simp [setValue, missing]

/-- No path out of range has a place in the group without values. -/
theorem setValue_empty (h : IsOutOfRange path {}) (text : Text) : setValue text path {} = {} := by
  cases path with
  | nil => rfl
  | cons i path =>
      cases path with
      | nil =>
          have behind : 0 < i := isOutOfRange_singleton.mp h
          simp [setValue, Nat.ne_of_gt behind]
      | cons j path => rfl

/-! ### The whole path -/

theorem IsThroughText.cons {vs : List FilterNode} {os : List Text} {j : Nat}
    (found : t.values[j]? = some (.group vs os)) (h : IsThroughText ⟨vs, os⟩ parent i path) :
    IsThroughText t (j :: parent) i (j :: path) := by
  obtain ⟨⟨rest, more, rfl⟩, g, x, leads, text⟩ := h
  refine ⟨⟨rest, more, rfl⟩, g, x, ?_, text⟩
  rwa [group?_cons found]

/-- By induction on the path: the groups that it goes through are put back as they were. -/
theorem setValue_eq_self (h : IsOutOfRange path t)
    (groups : ∀ parent i, ¬ IsThroughText t parent i path) (text : Text) :
    setValue text path t = t := by
  induction path generalizing t with
  | nil => rfl
  | cons i path ih =>
      by_cases more : path = []
      · subst more
        have behind : t.values.length < i := isOutOfRange_singleton.mp h
        rw [setValue, if_neg (by omega), if_neg (by omega)]
      · cases found : t.values[i]? with
        | none => exact setValue_missing more found text
        | some v =>
            cases v with
            | leaf x => exact absurd ⟨⟨path, more, rfl⟩, t, x, rfl, found⟩ (groups [] i)
            | group vs os =>
                have inner : setValue text path ⟨vs, os⟩ = ⟨vs, os⟩ := by
                  apply ih ((isOutOfRange_cons more found).mp h)
                  intro parent k through
                  exact groups (i :: parent) k (through.cons found)
                rw [setValue_cons more found, ofNode, inner]
                exact set_toNode found

/-- The group without values that the path takes the text for stands in its place. -/
theorem setValue_eq_emptied (h : IsOutOfRange path t) (through : IsThroughText t parent i path)
    (text : Text) : setValue text path t = modifyGroup (emptied i) parent t := by
  obtain ⟨⟨rest, more, rfl⟩, g, x, leads, here⟩ := through
  induction parent generalizing t with
  | nil =>
      obtain rfl : t = g := Option.some.inj leads
      rw [List.nil_append, isOutOfRange_cons more here] at h
      rw [List.nil_append, setValue_cons more here, ofNode, setValue_empty h]
      rfl
  | cons j parent ih =>
      rcases t.index_cases j with ⟨vs, os, found⟩ | nowhere
      · have onward : parent ++ i :: rest ≠ [] := by simp
        rw [List.cons_append, isOutOfRange_cons onward found] at h
        rw [group?_cons found] at leads
        have inner := ih h leads
        rw [List.cons_append, setValue_cons onward found, modifyGroup_cons found]
        rw [ofNode] at inner ⊢
        rw [inner]
      · rw [(nowhere parent).1] at leads
        contradiction

theorem emptied_ne_self (through : IsThroughText t parent i path) :
    modifyGroup (emptied i) parent t ≠ t := by
  obtain ⟨-, g, x, leads, here⟩ := through
  intro same
  have changed := group?_modifyGroup (emptied i) parent t
  rw [same, leads] at changed
  have values : g.values = g.values.set i (toNode {}) :=
    congrArg FilterTree.values (Option.some.inj changed)
  have inside : i < g.values.length := (List.getElem?_eq_some_iff.mp here).1
  rw [values] at here
  simp [inside, toNode] at here

/-- A path out of range leaves the tree as it is if and only if it goes through no text. If it
does, that text becomes a group without values, and this is all that changes. -/
theorem setValue_eq_self_iff (h : IsOutOfRange path t) (text : Text) :
    (setValue text path t = t ↔ ∀ parent i, ¬ IsThroughText t parent i path) ∧
      ∀ parent i, IsThroughText t parent i path →
        setValue text path t = modifyGroup (emptied i) parent t := by
  refine ⟨⟨?_, fun groups => setValue_eq_self h groups text⟩, ?_⟩
  · intro same parent i through
    rw [setValue_eq_emptied h through] at same
    exact emptied_ne_self through same
  · intro parent i through
    exact setValue_eq_emptied h through text

/-- A path that ends too far out in a group of a group, and one that goes on behind a text. -/
theorem setValue_eq_self_iff_group :
    let t : FilterTree := ⟨[.group [.group [.leaf "a"] [], .leaf "b"] ["OR"]], []⟩
    IsOutOfRange [0, 0, 2] t ∧ setValue "x" [0, 0, 2] t = t ∧
      IsOutOfRange [0, 1, 3, 0] t ∧ IsThroughText t [0] 1 [0, 1, 3, 0] ∧
        setValue "x" [0, 1, 3, 0] t = modifyGroup (emptied 1) [0] t := by
  intro t
  have deep : IsOutOfRange [0, 0, 2] t :=
    ⟨[0, 0], 2, rfl, fun g hg => by obtain rfl := Option.some.inj hg; decide⟩
  have lost : IsOutOfRange [0, 1, 3, 0] t := ⟨[0, 1, 3], 0, rfl, fun g hg => nomatch hg⟩
  have through : IsThroughText t [0] 1 [0, 1, 3, 0] :=
    ⟨⟨[3, 0], by decide, rfl⟩, _, _, rfl, rfl⟩
  refine ⟨deep, (setValue_eq_self_iff deep "x").1.mpr ?_, lost, through,
    (setValue_eq_self_iff lost "x").2 [0] 1 through⟩
  rintro parent i ⟨⟨rest, more, split⟩, g, x, leads, here⟩
  rcases parent with - | ⟨j, - | ⟨k, parent⟩⟩
  · obtain ⟨rfl, -⟩ := List.cons.inj split
    obtain rfl := Option.some.inj leads
    simp [t] at here
  · obtain ⟨rfl, rest'⟩ := List.cons.inj split
    obtain ⟨rfl, -⟩ := List.cons.inj rest'
    obtain rfl := Option.some.inj leads
    simp at here
  · have long := congrArg List.length split
    have some : 0 < rest.length := List.length_pos_iff.mpr more
    simp at long
    omega

/-- The last index is out of range behind a text, and yet the text is gone. -/
theorem setValue_ne_self_of_text :
    let t : FilterTree := ⟨[.leaf "a"], []⟩
    IsOutOfRange [0, 5] t ∧ setValue "x" [0, 5] t = ⟨[.group [] []], []⟩ ∧
      setValue "x" [0, 5] t ≠ t := by
  intro t
  refine ⟨⟨[0], 5, rfl, ?_⟩, rfl, ?_⟩
  · intro g hg
    obtain rfl := Option.some.inj hg
    decide
  · intro same
    simp [t, setValue, ofNode, toNode] at same

end LogQuery.FilterTree
