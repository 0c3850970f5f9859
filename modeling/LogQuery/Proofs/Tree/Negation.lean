import LogQuery.Proofs.Tree.Canonical

/-!
# Negations and what they negate

A negation goes on with the word behind it, as long as both stand in one text between groups. A
group is cut from the text before the words are looked at, so a negation that stands in front of a
group with white space between is a filter of its own. Nothing else leaves a negation alone in front
of another value.
-/

namespace LogQuery

namespace FilterNode

/-- A filter that is a negation and nothing else. -/
def isNegation : FilterNode → Bool
  | .leaf x => FilterTree.isNegation x
  | .group _ _ => false

/-- In every group of the node, no negation stands in front of another value. -/
inductive KeepsNegations : FilterNode → Prop
  | leaf (x : Text) : KeepsNegations (.leaf x)
  | group {vs : List FilterNode} {os : List Text} (values : ∀ v ∈ vs, KeepsNegations v)
      (last : vs.Pairwise fun v _ => v.isNegation = false) : KeepsNegations (.group vs os)

theorem keepsNegations_group_iff {vs : List FilterNode} {os : List Text} :
    KeepsNegations (.group vs os) ↔
      (∀ v ∈ vs, KeepsNegations v) ∧ vs.Pairwise fun v _ => v.isNegation = false := by
  constructor
  · rintro (_ | ⟨values, last⟩)
    exact ⟨values, last⟩
  · rintro ⟨values, last⟩
    exact .group values last

end FilterNode

namespace FilterTree

variable {t x n g : Text} {s : GroupScan} {fs : List Fragment} {items : List Item}
  {ps : List Piece} {node : Text → FilterNode} {levels : Nat}

/-! ### Where negations stand -/

/-- The texts that are read as groups, to so many levels; the first is the text itself. -/
def groupTexts : Nat → Text → List Text
  | 0, t => [t]
  | levels + 1, t => t :: (pieces t).flatMap fun
    | .group a => groupTexts levels a
    | _ => []

/-- No operator stands right behind a negation. -/
def Piece.NegatesFilters : Piece → Prop
  | .text x => (Fragment.ofText filterRules {} x).IsChain fun f g =>
      isNegation f.text = true → isOperator g.text = false
  | _ => True

instance : DecidablePred Piece.NegatesFilters
  | .text _ => inferInstanceAs (Decidable (List.IsChain _ _))
  | .group _ => inferInstanceAs (Decidable True)
  | .unbalanced _ => inferInstanceAs (Decidable True)

/-- The item is a filter that is a negation. -/
def Item.isNegation : Item → Bool
  | .operator _ => false
  | .value v => v.isNegation

/-- The last filter of the text is a negation, and nothing stands behind it. -/
def endsInNegation (x : Text) : Bool := (textItems x).getLast?.any Item.isNegation

/-- A negation is cut off from a group. -/
def cutsNegation : Piece → Piece → Bool
  | .text x, .group _ => endsInNegation x
  | _, _ => false

/-! ### Words -/

theorem isBlank_of_isNegation (h : isNegation n = true) : ∀ c ∈ n, Text.isBlank c = false := by
  simp only [isNegation, Bool.or_eq_true, beq_iff_eq] at h
  rcases h with (word | rfl) | rfl
  · have name := isName_of_sameFold word (by simp) rfl
    exact fun c hc => Text.isBlank_of_isNameChar (name.chars c hc)
  · simp [Text.isBlank]
  · simp [Text.isBlank]

/-- With white space inside, a filter is more than a negation. -/
theorem isNegation_append_gap (t r : Text) (hg : ∀ c ∈ g, Text.isBlank c = true) (hne : g ≠ []) :
    isNegation (t ++ g ++ r) = false := by
  rw [Bool.eq_false_iff]
  intro negation
  obtain ⟨c, hc⟩ := List.exists_mem_of_ne_nil g hne
  have seen := isBlank_of_isNegation negation c (by simp [hc])
  rw [hg c hc] at seen
  contradiction

/-- By induction on the fragments, with no filter at hand and with one at the same time: a negation
at hand takes in the fragment behind it. -/
theorem pairwise_itemsAfter (spaced : Spaced fs)
    (chain : fs.IsChain fun f g => isNegation f.text = true → isOperator g.text = false) :
    (itemsAfter none fs).Pairwise (fun i _ => i.isNegation = false) ∧
      ∀ t, StartsApart fs → (∀ f ∈ fs.head?, isNegation t = true → isOperator f.text = false) →
        (itemsAfter (some t) fs).Pairwise fun i _ => i.isNegation = false := by
  induction spaced with
  | nil => exact ⟨.nil, fun t _ _ => List.pairwise_singleton _ _⟩
  | @cons f fs _ gap apart _ ih =>
      obtain ⟨next, rest⟩ := List.isChain_cons.mp chain
      obtain ⟨without, held⟩ := ih rest
      have anew : (if isOperator f.text then .operator f.text :: itemsAfter none fs
          else itemsAfter (some f.text) fs).Pairwise fun i _ => i.isNegation = false := by
        split
        · exact List.pairwise_cons.mpr ⟨fun _ _ => rfl, without⟩
        · exact held f.text apart next
      refine ⟨anew, fun t apart' first => ?_⟩
      rw [itemsAfter]
      split
      · have longer := isNegation_append_gap t f.text gap (apart' f rfl)
        exact held _ apart fun g _ negation => by rw [longer] at negation; contradiction
      · next apart' =>
        have plain : isNegation t = false := by
          rw [Bool.eq_false_iff]
          intro negation
          simp [joins, negation, first f rfl negation] at apart'
        exact List.pairwise_cons.mpr ⟨fun _ _ => plain, anew⟩

/-- The filters of a text are no groups. -/
theorem keepsNegations_itemsAfter (current : Option Text) (fs : List Fragment) :
    ∀ v ∈ valuesOf (itemsAfter current fs), v.KeepsNegations := by
  induction fs generalizing current with
  | nil =>
      cases current with
      | none => simp [itemsAfter, valuesOf]
      | some t => simpa [itemsAfter, valuesOf] using .leaf t
  | cons f fs ih =>
      have anew : ∀ v ∈ valuesOf (if isOperator f.text then .operator f.text :: itemsAfter none fs
          else itemsAfter (some f.text) fs), v.KeepsNegations := by
        split
        · exact ih none
        · exact ih (some f.text)
      cases current with
      | none => exact anew
      | some t =>
          rw [itemsAfter]
          split
          · exact ih _
          · rw [valuesOf_value]
            exact List.forall_mem_cons.mpr ⟨.leaf t, anew⟩

@[simp] theorem valuesOf_append (items rest : List Item) :
    valuesOf (items ++ rest) = valuesOf items ++ valuesOf rest := List.filterMap_append

theorem mem_valuesOf_iff {v : FilterNode} : v ∈ valuesOf items ↔ .value v ∈ items := by
  rw [valuesOf, List.mem_filterMap]
  constructor
  · rintro ⟨i, hi, same⟩
    cases i with
    | operator o => contradiction
    | value w => rwa [← Option.some.inj same]
  · exact fun h => ⟨_, h, rfl⟩

theorem pairwise_valuesOf (h : items.Pairwise fun i _ => i.isNegation = false) :
    (valuesOf items).Pairwise fun v _ => v.isNegation = false := by
  refine h.filterMap _ fun i j plain v hv w _ => ?_
  cases i with
  | operator o => contradiction
  | value u => rwa [← Option.some.inj hv]

/-- Where only the last item can be a negation, it is the last one. -/
theorem getLast?_any_isNegation_iff (h : items.Pairwise fun i _ => i.isNegation = false) :
    items.getLast?.any Item.isNegation = true ↔ ∃ v ∈ valuesOf items, v.isNegation = true := by
  constructor
  · intro last
    rw [Option.any_eq_true] at last
    obtain ⟨i, hi, negation⟩ := last
    cases i with
    | operator o => contradiction
    | value v => exact ⟨v, mem_valuesOf_iff.mpr (List.mem_of_getLast? hi), negation⟩
  · rintro ⟨v, hv, negation⟩
    obtain ⟨front, rest, rfl⟩ := List.append_of_mem (mem_valuesOf_iff.mp hv)
    cases rest with
    | nil =>
        rw [List.getLast?_concat]
        exact negation
    | cons j rest =>
        have plain := (List.pairwise_append.mp h).2.1
        have := (List.pairwise_cons.mp plain).1 j (by simp)
        rw [Item.isNegation, negation] at this
        contradiction

/-! ### Pieces -/

/-- Behind a text stands a group, if anything. -/
def TextsApart (ps : List Piece) : Prop :=
  ps.IsChain fun p q => ∀ x, p = .text x → ∃ a, q = .group a

/-- What a step completes: nothing, a text in front of a group, a group, or a stray bracket. -/
theorem GroupScan.step_shape (s : GroupScan) (c : Char) :
    (s.step c).1 = [] ∧
        (0 < s.depth ∧ s.call = false → 0 < (s.step c).2.depth ∧ (s.step c).2.call = false) ∨
      (s.step c).1 = textPiece s.buffer ∧ s.depth = 0 ∧
        0 < (s.step c).2.depth ∧ (s.step c).2.call = false ∨
      (∃ a, (s.step c).1 = [.group a]) ∨
      ∃ position, .unbalanced position ∈ (s.step c).1 := by
  rw [step]
  split_ifs with opener closer
  · rw [stepOpen]
    split_ifs with deep call
    · exact .inl ⟨rfl, fun h => ⟨Nat.succ_pos _, h.2⟩⟩
    · exact .inl ⟨rfl, fun h => absurd h.1 deep⟩
    · exact .inr (.inl ⟨rfl, by omega, Nat.one_pos, by simpa using call⟩)
  · rw [stepClose]
    split
    · exact .inr (.inr (.inr ⟨_, List.mem_cons_self⟩))
    · next depth deep =>
      split_ifs with ends
      · exact .inr (.inr (.inl ⟨_, rfl⟩))
      · refine .inl ⟨rfl, fun h => ⟨Nat.pos_of_ne_zero fun (zero : depth = 0) => ends ?_, h.2⟩⟩
        rw [zero, h.2]
        rfl
  · exact .inl ⟨rfl, id⟩

/-- By induction on the text: inside of a group the next piece is that group. -/
theorem GroupScan.textsApart_run (h : ∀ position, .unbalanced position ∉ s.run t) :
    TextsApart (s.run t) ∧
      (0 < s.depth ∧ s.call = false → ∃ a ps, s.run t = .group a :: ps) := by
  induction t generalizing s with
  | nil =>
      rw [run, finish] at h ⊢
      split at h
      · exact absurd List.mem_cons_self (h s.openedAt)
      · next top =>
        rw [if_neg top, List.nil_append, textPiece]
        refine ⟨?_, fun deep => absurd deep.1 top⟩
        split
        · exact .nil
        · exact .singleton _
  | cons c t ih =>
      rw [run] at h ⊢
      have rest := ih fun position hm => h position (List.mem_append_right _ hm)
      rcases s.step_shape c with ⟨none, deeper⟩ | ⟨text, top, deep⟩ | ⟨a, group⟩ | ⟨position, stray⟩
      · rw [none]
        exact ⟨rest.1, fun deep => rest.2 (deeper deep)⟩
      · obtain ⟨a, ps, next⟩ := rest.2 deep
        refine ⟨?_, fun deep => absurd deep.1 (by omega)⟩
        rw [text, textPiece]
        split
        · exact rest.1
        · rw [next] at rest ⊢
          exact .cons_cons (fun _ _ => ⟨a, rfl⟩) rest.1
      · rw [group]
        refine ⟨?_, fun _ => ⟨a, _, rfl⟩⟩
        refine List.isChain_cons.mpr ⟨fun _ _ x text => ?_, rest.1⟩
        contradiction
      · exact absurd (List.mem_append_left _ stray) (h position)

theorem textsApart_pieces (h : IsNested t) : TextsApart (pieces t) := by
  refine (GroupScan.textsApart_run fun position stray => ?_).1
  cases isWhole_pieces h _ stray

theorem isNegation_inner (levels : Nat) (a : Text) : (inner levels a).isNegation = false := by
  cases levels with
  | zero => simp [inner, FilterNode.isNegation, isNegation, Text.sameFold]
  | succ levels => rfl

/-- Between groups only the last filter can be a negation, and then nothing stands behind it. -/
theorem pairwise_textItems (whole : (Piece.text x).IsWhole)
    (negates : (Piece.text x).NegatesFilters) :
    (textItems x).Pairwise fun i _ => i.isNegation = false := by
  cases whole with
  | text spaced _ blank =>
      have none := fragments_blank blank
      rw [Piece.NegatesFilters, spaced.ofText_append (by simp [none, StartsApart]), none,
        List.append_nil] at negates
      rw [spaced.textItems_append blank]
      exact (pairwise_itemsAfter spaced negates).1

/-- Among the values of pieces a negation is the last one, unless a group stands behind it. -/
theorem pairwise_itemsOf_iff (node : Text → FilterNode) (plain : ∀ a, (node a).isNegation = false)
    (whole : ∀ p ∈ ps, p.IsWhole) (apart : TextsApart ps)
    (negates : ∀ p ∈ ps, p.NegatesFilters) :
    ((valuesOf (itemsOf node ps)).Pairwise fun v _ => v.isNegation = false) ↔
      ps.IsChain fun p q => cutsNegation p q = false := by
  induction ps with
  | nil => simp [valuesOf]
  | cons p ps ih =>
      obtain ⟨next, apart⟩ := List.isChain_cons.mp apart
      have rest := ih (fun q hq => whole q (by simp [hq])) apart fun q hq => negates q (by simp [hq])
      rw [List.isChain_cons, ← rest]
      cases p with
      | unbalanced position => cases whole _ List.mem_cons_self
      | group a =>
          rw [itemsOf_group, valuesOf_value, List.pairwise_cons]
          exact and_congr_left fun _ => ⟨fun _ _ _ => rfl, fun _ _ _ => plain a⟩
      | text x =>
          have words := pairwise_textItems (whole _ List.mem_cons_self) (negates _ List.mem_cons_self)
          have split : itemsOf node (.text x :: ps) = textItems x ++ itemsOf node ps := rfl
          rw [split, valuesOf_append, List.pairwise_append]
          have cut : (∀ v ∈ valuesOf (textItems x), ∀ w ∈ valuesOf (itemsOf node ps),
              v.isNegation = false) ↔ ∀ q ∈ ps.head?, cutsNegation (.text x) q = false := by
            cases ps with
            | nil => simp [valuesOf]
            | cons q ps =>
                obtain ⟨a, rfl⟩ := next q rfl x rfl
                have last : cutsNegation (.text x) (.group a) = false ↔
                    ∀ v ∈ valuesOf (textItems x), v.isNegation = false := by
                  rw [cutsNegation, endsInNegation, Bool.eq_false_iff, ne_eq,
                    getLast?_any_isNegation_iff words]
                  simp
                rw [itemsOf_group, valuesOf_value]
                constructor
                · intro h q hq
                  rw [← Option.some.inj hq]
                  exact last.mpr fun v hv => h v hv (node a) List.mem_cons_self
                · exact fun h v hv _ _ => last.mp (h _ rfl) v hv
          rw [cut]
          exact ⟨fun h => ⟨h.2.2, h.2.1⟩, fun h => ⟨pairwise_valuesOf words, h.2, h.1⟩⟩

/-! ### Trees -/

theorem forall_mem_groupTexts_succ {P : Text → Prop} :
    (∀ a ∈ groupTexts (levels + 1) t, P a) ↔
      P t ∧ ∀ b, .group b ∈ pieces t → ∀ a ∈ groupTexts levels b, P a := by
  rw [groupTexts, List.forall_mem_cons]
  refine and_congr_right fun _ => ⟨fun h b hb a ha => ?_, fun h a ha => ?_⟩
  · exact h a (List.mem_flatMap.mpr ⟨_, hb, ha⟩)
  · obtain ⟨p, hp, ha⟩ := List.mem_flatMap.mp ha
    cases p with
    | group b => exact h b hp a ha
    | text x => contradiction
    | unbalanced position => contradiction

theorem keepsNegations_itemsOf_iff :
    (∀ v ∈ valuesOf (itemsOf node ps), v.KeepsNegations) ↔
      ∀ b, .group b ∈ ps → (node b).KeepsNegations := by
  constructor
  · intro h b hb
    exact h _ (mem_valuesOf_iff.mpr (List.mem_flatMap.mpr ⟨_, hb, List.mem_singleton_self _⟩))
  · intro h v hv
    obtain ⟨p, hp, hv⟩ := List.mem_flatMap.mp (mem_valuesOf_iff.mp hv)
    cases p with
    | text x => exact keepsNegations_itemsAfter none _ v (mem_valuesOf_iff.mpr hv)
    | group b =>
        obtain rfl : v = node b := by simpa [itemsOfPiece] using hv
        exact h b hp
    | unbalanced position => contradiction

/-- By induction on the levels: in a group no negation is cut off, and none in the groups inside. -/
theorem keepsNegations_readWithin_iff (nested : IsNested t)
    (negates : ∀ a ∈ groupTexts levels t, ∀ p ∈ pieces a, p.NegatesFilters) :
    (readWithin levels t).tree.toNode.KeepsNegations ↔
      ∀ a ∈ groupTexts levels t, (pieces a).IsChain fun p q => cutsNegation p q = false := by
  have root {levels : Nat} {t : Text} (nested : IsNested t)
      (negates : ∀ p ∈ pieces t, p.NegatesFilters) :
      (readWithin levels t).tree.toNode.KeepsNegations ↔
        (∀ b, .group b ∈ pieces t → (inner levels b).KeepsNegations) ∧
          (pieces t).IsChain fun p q => cutsNegation p q = false := by
    have values : (readWithin levels t).tree.values =
        valuesOf (itemsOf (inner levels) (pieces t)) := by
      rw [readWithin_tree, ofItems, values_attach]
      rfl
    rw [toNode, FilterNode.keepsNegations_group_iff, values, keepsNegations_itemsOf_iff,
      pairwise_itemsOf_iff _ (isNegation_inner levels) (isWhole_pieces nested)
        (textsApart_pieces nested) negates]
  induction levels generalizing t with
  | zero =>
      have all : ∀ b, .group b ∈ pieces t → (inner 0 b).KeepsNegations := fun b _ => .leaf _
      rw [root nested (negates t (by simp [groupTexts]))]
      simpa [groupTexts] using fun _ => all
  | succ levels ih =>
      obtain ⟨here, inside⟩ := forall_mem_groupTexts_succ.mp negates
      rw [root nested here, forall_mem_groupTexts_succ, and_comm]
      refine and_congr_right fun _ => forall₂_congr fun b hb => ?_
      cases isWhole_pieces nested _ hb with
      | group within => exact ih within (inside b hb)

/-- In a balanced text without operators right behind negations, a negation is separated from what
it negates exactly where that is a group with white space in front. -/
theorem keepsNegations_ofText_iff (balanced : IsBalanced t)
    (negates : ∀ a ∈ groupTexts (maxNesting - 1) t, ∀ p ∈ pieces a, p.NegatesFilters) :
    (ofText t).toNode.KeepsNegations ↔
      ∀ a ∈ groupTexts (maxNesting - 1) t,
        (pieces a).IsChain fun p q => cutsNegation p q = false := by
  have root : ofText t = (readWithin (maxNesting - 1) t).tree := by
    rw [ofText, read]
    split <;> rfl
  rw [root]
  exact keepsNegations_readWithin_iff (isNested_iff.mpr balanced) negates

/-- Negations of a word, of a quoted text, of a call and of brackets right behind, in a group, and
one at the end. -/
theorem keepsNegations_ofText_words :
    let t : Text := "not a ! \"b (c\" (- x:in(1) or !(d) not) NOT"
    IsBalanced t ∧
      (∀ a ∈ groupTexts (maxNesting - 1) t, ∀ p ∈ pieces a, p.NegatesFilters) ∧
      (ofText t).toNode.KeepsNegations := by
  intro t
  have balanced : IsBalanced t := by decide
  have negates : ∀ a ∈ groupTexts (maxNesting - 1) t, ∀ p ∈ pieces a, p.NegatesFilters := by
    decide
  exact ⟨balanced, negates, (keepsNegations_ofText_iff balanced negates).mpr (by decide)⟩

/-- A group behind a negation is a value of its own, and an operator is put between. -/
theorem not_keepsNegations_ofText :
    let t : Text := "not (a or b)"
    IsBalanced t ∧
      (∀ a ∈ groupTexts (maxNesting - 1) t, ∀ p ∈ pieces a, p.NegatesFilters) ∧
      (ofText t).text = "not AND (a or b)" ∧ ¬(ofText t).toNode.KeepsNegations := by
  intro t
  have tree : ofText t = ⟨[.leaf "not", .group [.leaf "a", .leaf "b"] ["or"]], ["AND"]⟩ := by rfl
  refine ⟨by decide, by decide, ?_, fun keeps => ?_⟩
  · rw [tree]
    rfl
  · rw [tree, toNode, FilterNode.keepsNegations_group_iff] at keeps
    have := (List.pairwise_cons.mp keeps.2).1 _ (List.mem_singleton_self _)
    contradiction

end FilterTree

end LogQuery
