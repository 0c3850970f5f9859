import LogQuery.Proofs.Text.Pieces
import LogQuery.Proofs.Tree.Canonical
import LogQuery.Proofs.Tree.Unpaired

/-!
# The words of a text and of its tree

Reading a tree cuts the text at white space and at round brackets and nowhere else: the pieces of
a text, the fragments of a piece and the filters put together from these have the words of the
text, in order. It does not matter which brackets have partners, which quotes are closed and how
deep the groups are. What a tree leaves out is operators, so a text without any is kept whole.
-/

namespace LogQuery

namespace FilterNode

mutual

/-- The texts of the filters in a node, from left to right. -/
def leaves : FilterNode → List Text
  | leaf t => [t]
  | group values _ => leavesAll values

def leavesAll : List FilterNode → List Text
  | [] => []
  | v :: vs => leaves v ++ leavesAll vs

end

theorem leavesAll_eq_flatMap (vs : List FilterNode) : leavesAll vs = vs.flatMap leaves := by
  induction vs with
  | nil => rfl
  | cons v vs ih => rw [leavesAll, ih, List.flatMap_cons]

end FilterNode

namespace FilterTree

/-- The texts of the filters in a tree, from left to right. -/
def leaves (t : FilterTree) : List Text := t.toNode.leaves

/-- White space and round brackets. -/
def isSpacing (c : Char) : Bool := Text.isBlank c || c == '(' || c == ')'

/-- What stands between white space, round brackets and the ends of a text. -/
def words (t : Text) : List Text := (t.splitOnP isSpacing).filter fun w => !w.isEmpty

variable {a b g t u w : Text} {c : Char} {s : GroupScan} {f : Fragment} {fs : List Fragment}
  {xs ys zs xs' ys' : List Text} {node : Text → FilterNode}

/-! ### Words -/

theorem words_append_cons (a : Text) (h : isSpacing c = true) (b : Text) :
    words (a ++ c :: b) = words a ++ words b :=
  Text.pieces_append_cons a h b

@[simp] theorem words_nil : words [] = [] := rfl

theorem words_cons (h : isSpacing c = true) (b : Text) : words (c :: b) = words b :=
  Text.pieces_cons h b

theorem words_concat (a : Text) (h : isSpacing c = true) : words (a ++ [c]) = words a :=
  Text.pieces_concat a h

/-- A text without spacing is a word. -/
theorem words_of_unspaced (h : ∀ c ∈ w, isSpacing c = false) (nonempty : w ≠ []) :
    words w = [w] :=
  Text.pieces_of_unbroken h nonempty

/-- Put together, the words are the text without white space and round brackets. -/
theorem flatten_words (t : Text) : (words t).flatten = t.filter fun c => !isSpacing c := by
  rw [words, List.flatten_filter_not_isEmpty]
  induction t with
  | nil => rfl
  | cons c t ih =>
      rw [List.splitOnP_cons_eq_if_modifyHead]
      cases spacing : isSpacing c with
      | true => simp [spacing, ih]
      | false =>
          obtain ⟨w, ws, split⟩ := List.exists_cons_of_ne_nil (List.splitOnP_ne_nil isSpacing t)
          rw [split] at ih ⊢
          simpa [spacing] using ih

theorem isSpacing_of_isBlank (h : Text.isBlank c = true) : isSpacing c = true := by
  simp [isSpacing, h]

theorem words_leading (blank : ∀ c ∈ g, Text.isBlank c = true) (b : Text) :
    words (g ++ b) = words b :=
  Text.pieces_leading (fun c hc => isSpacing_of_isBlank (blank c hc)) b

/-- White space between two texts parts their words. -/
theorem words_gap (a : Text) (blank : ∀ c ∈ g, Text.isBlank c = true) (behind : g ≠ [])
    (b : Text) : words (a ++ (g ++ b)) = words a ++ words b :=
  Text.pieces_gap a (fun c hc => isSpacing_of_isBlank (blank c hc)) behind b

theorem words_trailing (a : Text) (blank : ∀ c ∈ g, Text.isBlank c = true) :
    words (a ++ g) = words a :=
  Text.pieces_trailing a fun c hc => isSpacing_of_isBlank (blank c hc)

theorem words_operator (h : isOperator w = true) : words w = [w] := by
  have word := isWord_of_isOperator h
  refine words_of_unspaced (fun c hc => ?_) word.nonempty
  have plain := word.plain c hc
  simp only [isPlainChar, Bool.and_eq_true, bne_iff_ne] at plain
  simp [isSpacing, word.seen c hc, plain]

/-! ### Leaving out operators -/

/-- The words but for some operators, in order. -/
structure KeepsWords (xs ys : List Text) : Prop where
  sublist : xs.Sublist ys
  others : (xs.filter fun w => !isOperator w) = ys.filter fun w => !isOperator w

namespace KeepsWords

theorem refl (xs : List Text) : KeepsWords xs xs := ⟨.refl xs, rfl⟩

theorem append (h : KeepsWords xs ys) (h' : KeepsWords xs' ys') :
    KeepsWords (xs ++ xs') (ys ++ ys') where
  sublist := h.sublist.append h'.sublist
  others := by rw [List.filter_append, List.filter_append, h.others, h'.others]

theorem operator (h : isOperator w = true) : KeepsWords [] (words w) := by
  rw [words_operator h]
  exact ⟨List.nil_sublist _, by simp [h]⟩

/-- Where there is no operator, nothing is left out. -/
theorem eq (h : KeepsWords xs ys) (none : ∀ w ∈ ys, isOperator w = false) : xs = ys := by
  have all {zs : List Text} (hz : ∀ w ∈ zs, isOperator w = false) :
      (zs.filter fun w => !isOperator w) = zs :=
    List.filter_eq_self.mpr fun w hw => by simp [hz w hw]
  have others := h.others
  rwa [all none, all fun w hw => none w (h.sublist.mem hw)] at others

end KeepsWords

/-! ### Pieces -/

/-- The words that stand in a piece. -/
def Piece.words : Piece → List Text
  | .text t => FilterTree.words t
  | .group a => FilterTree.words a
  | .unbalanced _ => []

theorem words_textPiece (t : Text) : (textPiece t).flatMap Piece.words = words t := by
  rw [textPiece]
  split
  · next blank =>
    have none := words_trailing [] (List.all_eq_true.mp blank)
    rw [List.nil_append] at none
    rw [none]
    rfl
  · simp [Piece.words]

/-- A character goes to the text held, or ends it, and if it ends it it is spacing. -/
theorem GroupScan.InGroup.words_step (h : s.InGroup) (c : Char) (u : Text) :
    (s.step c).1.flatMap Piece.words ++ words ((s.step c).2.buffer ++ u) =
      words (s.buffer ++ c :: u) := by
  have hold : words ((s.hold c).buffer ++ u) = words (s.buffer ++ c :: u) := by
    simp [GroupScan.hold, GroupScan.buffer]
  rw [GroupScan.step]
  split_ifs with opener closer
  · obtain rfl : c = '(' := by simpa using (Bool.and_eq_true_iff.mp opener).2
    rw [GroupScan.stepOpen]
    split_ifs with deep call
    · exact hold
    · exact hold
    · have spacing : isSpacing '(' = true := by decide
      rw [words_textPiece, words_append_cons _ spacing]
      exact congrArg _ (words_cons spacing u)
  · obtain rfl : c = ')' := by simpa using (Bool.and_eq_true_iff.mp closer).2
    have spacing : isSpacing ')' = true := by decide
    rw [GroupScan.stepClose]
    split
    · rw [List.flatMap_cons, words_textPiece, words_append_cons _ spacing]
      rfl
    · next depth deep =>
      split_ifs with ends
      · simp only [Bool.and_eq_true, beq_iff_eq, Bool.not_eq_true'] at ends
        obtain ⟨a, buffer, -⟩ := h (by omega) ends.2
        have opened : isSpacing '(' = true := by decide
        rw [words_append_cons _ spacing, buffer, words_cons opened]
        simp [Piece.words, GroupScan.buffer]
      · exact hold
  · exact hold

theorem GroupScan.InGroup.words_run (h : s.InGroup) (t : Text) :
    (s.run t).flatMap Piece.words = words (s.buffer ++ t) := by
  induction t generalizing s with
  | nil =>
      rw [GroupScan.run, GroupScan.finish, List.flatMap_append, words_textPiece, List.append_nil]
      split <;> rfl
  | cons c t ih =>
      rw [GroupScan.run, List.flatMap_append, ih (h.step c).1, h.words_step c t]

theorem words_pieces (t : Text) : (pieces t).flatMap Piece.words = words t := by
  have start : GroupScan.InGroup {} := fun deep => absurd deep (by decide)
  exact start.words_run t

/-! ### Fragments -/

/-- Any texts with white space between, and perhaps in front. -/
inductive Gapped : List Fragment → Prop
  | nil : Gapped []
  | cons {f : Fragment} {fs : List Fragment} (gap : ∀ c ∈ f.gap, Text.isBlank c = true)
      (apart : StartsApart fs) (rest : Gapped fs) : Gapped (f :: fs)

/-- By induction on the text, at any place: a character of a run starts a fragment or joins one
that has no gap in front. -/
theorem gapped_ofText (r : PlaceRules) (p : Place) (t : Text) :
    Gapped (Fragment.ofText r p t) ∧
      ∃ g, (∀ c ∈ g, Text.isBlank c = true) ∧ t = flatten (Fragment.ofText r p t) ++ g := by
  induction t generalizing p with
  | nil => exact ⟨.nil, [], by simp, rfl⟩
  | cons c t ih =>
      rw [Fragment.ofText]
      split_ifs with top
      · have seen : Text.isBlank c = true := (Bool.and_eq_true_iff.mp top).2
        obtain ⟨gapped, g, blank, whole⟩ := ih p
        generalize Fragment.ofText r p t = fs at gapped whole
        subst whole
        cases gapped with
        | nil => exact ⟨.nil, c :: g, by simpa [seen] using blank, rfl⟩
        | cons gap apart rest =>
            refine ⟨.cons ?_ apart rest, g, blank, by simp [Fragment.addGap]⟩
            simpa [seen] using gap
      · obtain ⟨gapped, g, blank, whole⟩ := ih (p.step r c)
        generalize Fragment.ofText r (p.step r c) t = fs at gapped whole
        subst whole
        cases gapped with
        | nil => exact ⟨.cons (by simp) (by simp [StartsApart]) .nil, g, blank, rfl⟩
        | @cons f fs gap apart rest =>
            rw [Fragment.addChar]
            split_ifs with glued
            · have none : f.gap = [] := List.isEmpty_iff.mp glued
              exact ⟨.cons (by simp) apart rest, g, blank, by simp [none]⟩
            · have behind : StartsApart (f :: fs) := by simpa [StartsApart] using glued
              exact ⟨.cons (by simp) behind (.cons gap apart rest), g, blank, by simp⟩

/-- A text in front of fragments behind a gap. -/
theorem Gapped.words_append (h : Gapped fs) (apart : StartsApart fs) (a : Text) :
    words (a ++ flatten fs) = words a ++ words (flatten fs) := by
  cases h with
  | nil => simp
  | @cons f fs gap _ _ =>
      rw [flatten_cons, List.append_assoc, words_gap a gap (apart f rfl), words_leading gap]

/-! ### Filters -/

/-- The words in the filters of a node. -/
def nodeWords (v : FilterNode) : List Text := v.leaves.flatMap words

/-- The words in the values among items. -/
def itemWords (items : List Item) : List Text := (valuesOf items).flatMap nodeWords

@[simp] theorem itemWords_nil : itemWords [] = [] := rfl

@[simp] theorem itemWords_operator (o : Text) (items : List Item) :
    itemWords (.operator o :: items) = itemWords items := rfl

theorem itemWords_append (items items' : List Item) :
    itemWords (items ++ items') = itemWords items ++ itemWords items' := by
  simp [itemWords, valuesOf]

theorem itemWords_value (v : FilterNode) (items : List Item) :
    itemWords (.value v :: items) = nodeWords v ++ itemWords items := by
  simp [itemWords]

theorem itemWords_leaf (t : Text) (items : List Item) :
    itemWords (.value (.leaf t) :: items) = words t ++ itemWords items := by
  simp [itemWords_value, nodeWords, FilterNode.leaves]

/-- What a fragment comes to that goes on with no filter, given what those behind it come to. -/
theorem keepsWords_anew (gapped : Gapped fs) (apart : StartsApart fs)
    (rest : ∀ current : Option Text,
      KeepsWords (itemWords (itemsAfter current fs)) (words (current.getD [] ++ flatten fs)))
    (t : Text) : KeepsWords
      (itemWords (if isOperator t then .operator t :: itemsAfter none fs
        else itemsAfter (some t) fs))
      (words (t ++ flatten fs)) := by
  split_ifs with operator
  · rw [itemWords_operator, gapped.words_append apart]
    exact (KeepsWords.operator operator).append (rest none)
  · exact rest (some t)

/-- By induction on the fragments: the filter at hand takes in the next one or is a value. -/
theorem keepsWords_itemsAfter (h : Gapped fs) (apart : StartsApart fs) (current : Option Text) :
    KeepsWords (itemWords (itemsAfter current fs)) (words (current.getD [] ++ flatten fs)) := by
  induction h generalizing current with
  | nil =>
      cases current with
      | none => exact .refl _
      | some t => simpa [itemsAfter, itemWords_leaf] using KeepsWords.refl _
  | @cons f fs gap apart' gapped ih =>
      have anew := keepsWords_anew gapped apart' (ih apart') f.text
      cases current with
      | none =>
          rw [itemsAfter, Option.getD_none, List.nil_append, flatten_cons, List.append_assoc,
            words_leading gap]
          exact anew
      | some t =>
          rw [itemsAfter, Option.getD_some, flatten_cons]
          split
          · have joined := ih apart' (some (t ++ f.gap ++ f.text))
            simpa using joined
          · rw [itemWords_leaf, List.append_assoc, words_gap t gap (apart f rfl)]
            exact (KeepsWords.refl _).append anew

theorem keepsWords_textItems (t : Text) : KeepsWords (itemWords (textItems t)) (words t) := by
  obtain ⟨gapped, g, blank, whole⟩ := gapped_ofText filterRules {} t
  rw [textItems, whole, words_trailing _ blank, ← whole]
  generalize Fragment.ofText filterRules {} t = fs at gapped
  cases gapped with
  | nil => exact .refl _
  | @cons f fs gap apart rest =>
      rw [itemsAfter, flatten_cons, List.append_assoc, words_leading gap]
      exact keepsWords_anew rest apart (keepsWords_itemsAfter rest apart) f.text

/-! ### Trees -/

theorem keepsWords_itemsOf (group : ∀ a, KeepsWords (nodeWords (node a)) (words a))
    (ps : List Piece) : KeepsWords (itemWords (itemsOf node ps)) (ps.flatMap Piece.words) := by
  induction ps with
  | nil => exact .refl _
  | cons p ps ih =>
      rw [itemsOf, List.flatMap_cons, itemWords_append, List.flatMap_cons]
      refine KeepsWords.append ?_ ih
      cases p with
      | text t => exact keepsWords_textItems t
      | group a => simpa [itemsOfPiece, itemWords_value, Piece.words] using group a
      | unbalanced position => exact .refl _

/-- By induction on the levels. Past the last one a group is a filter with its brackets. -/
theorem keepsWords_inner (levels : Nat) (a : Text) :
    KeepsWords (nodeWords (inner levels a)) (words a) := by
  induction levels generalizing a with
  | zero =>
      have whole : nodeWords (inner 0 a) = words a := by
        have opened : isSpacing '(' = true := by decide
        have closed : isSpacing ')' = true := by decide
        simp [nodeWords, inner, FilterNode.leaves, words_cons opened, words_concat a closed]
      rw [whole]
      exact .refl _
  | succ levels ih =>
      have values : nodeWords (inner (levels + 1) a) =
          itemWords (itemsOf (inner levels) (pieces a)) := by
        rw [inner, readWithin_tree, nodeWords, toNode, FilterNode.leaves,
          FilterNode.leavesAll_eq_flatMap, ofItems, values_attach, List.flatMap_assoc]
        rfl
      have kept := keepsWords_itemsOf ih (pieces a)
      rwa [words_pieces, ← values] at kept

/-- The filters of a tree have the words of its text but for some operators, whatever brackets
and quotes are open in it. -/
theorem keepsWords_ofText (t : Text) : KeepsWords ((ofText t).leaves.flatMap words) (words t) := by
  have tree : (ofText t).toNode = inner maxNesting t := by
    rw [ofText, read]
    split <;> rfl
  have kept := keepsWords_inner maxNesting t
  rwa [← tree] at kept

/-- Where no word of a text is an operator, the filters of its tree put together are the text, up
to white space and round brackets. -/
theorem filter_leaves_ofText (h : ∀ w ∈ words t, isOperator w = false) :
    ((ofText t).leaves.flatten.filter fun c => !isSpacing c) = t.filter fun c => !isSpacing c := by
  have leaf (ts : List Text) :
      (ts.flatMap words).flatten = ts.flatten.filter fun c => !isSpacing c := by
    induction ts with
    | nil => rfl
    | cons x ts ih => simp [ih, flatten_words]
  rw [← leaf, (keepsWords_ofText t).eq h, flatten_words]

/-- A closing bracket too many, a call, an open group and an open quote, and words that have an
operator in them. -/
theorem filter_leaves_ofText_open :
    let t : Text := "a) (band f(x) \"or\" (b:(c ' d"
    (∀ w ∈ words t, isOperator w = false) ∧
      ((ofText t).leaves.flatten.filter fun c => !isSpacing c) =
        "abandfx\"or\"b:c'd".toList := by
  intro t
  have free : ∀ w ∈ words t, isOperator w = false := by decide
  refine ⟨free, (filter_leaves_ofText free).trans ?_⟩
  decide

end FilterTree

end LogQuery
