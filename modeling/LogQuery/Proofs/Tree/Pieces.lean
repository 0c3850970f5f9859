import LogQuery.Proofs.Tree.Runs

/-!
# Pieces of balanced texts

The scan for groups takes a bracket that starts a run for a group, unless a membership test stands
before it, and holds every other bracket with the text around it. So the text between the groups
of a balanced text is runs again, linked so that the scan goes over them without a group in any
place that looks the same, and the inside of each group is balanced.
-/

namespace LogQuery.FilterTree

variable {a b r t u g x : Text} {s : GroupScan} {f : Fragment} {fs gs : List Fragment}

/-! ### Membership tests -/

theorem endsInMembership_append_blank (t : Text) (hg : ∀ c ∈ g, Text.isBlank c = true) :
    endsInMembership (t ++ g) = endsInMembership t := by
  rw [endsInMembership, Text.trimEnd_append_blank t hg, endsInMembership]

theorem endsInMembership_iff (last : ∀ c ∈ t.getLast?, Text.isBlank c = false) :
    endsInMembership t = true ↔ [':', 'i', 'n'] <:+ t.map Char.toLower ∨
      [':', 'n', 'o', 't', '_', 'i', 'n'] <:+ t.map Char.toLower := by
  have kept : t.trimEnd = t := Text.dropEndWhile_eq_self last
  rw [endsInMembership, kept, Bool.or_eq_true, Text.endsWith, Text.endsWith,
    List.isSuffixOf_iff_suffix, List.isSuffixOf_iff_suffix]
  rfl

theorem last_append (hr : r.Tight) (b : Text) :
    ∀ c ∈ (b ++ r).getLast?, Text.isBlank c = false := by
  rw [List.getLast?_append_of_ne_nil _ hr.nonempty]
  exact hr.last

/-- A membership test at the end of a run is one at the end of the text. -/
theorem endsInMembership_append (hr : r.Tight) (h : endsInMembership r = true) (b : Text) :
    endsInMembership (b ++ r) = true := by
  have ending : r.map Char.toLower <:+ (b ++ r).map Char.toLower := by
    rw [List.map_append]
    exact List.suffix_append _ _
  rw [endsInMembership_iff (last_append hr b)]
  exact ((endsInMembership_iff hr.last).mp h).imp (·.trans ending) (·.trans ending)

theorem suffix_of_suffix_append_cons {α : Type} {c : α} {e p q : List α} (h : e <:+ p ++ c :: q)
    (hc : c ∉ e) : e <:+ q := by
  rcases List.suffix_or_suffix_of_suffix h (List.suffix_append p (c :: q)) with inner | outer
  · rcases List.suffix_cons_iff.mp inner with rfl | ending
    · exact absurd List.mem_cons_self hc
    · exact ending
  · exact absurd (outer.subset List.mem_cons_self) hc

/-- If white space stands before the run, the other way round as well. -/
theorem endsInMembership_of_append {c : Char} (hr : r.Tight) (hc : Text.isBlank c = true)
    (h : endsInMembership (b ++ c :: r) = true) : endsInMembership r = true := by
  have apart {e : Text} (he : e.any Text.isBlank = false)
      (ending : e <:+ (b ++ c :: r).map Char.toLower) : e <:+ r.map Char.toLower := by
    rw [List.map_append, List.map_cons] at ending
    exact suffix_of_suffix_append_cons ending fun hm =>
      List.any_eq_false.mp he _ hm (Text.isBlank_toLower hc)
  have last : ∀ d ∈ (b ++ c :: r).getLast?, Text.isBlank d = false := by
    simpa using last_append hr (b ++ [c])
  rw [endsInMembership_iff last] at h
  exact (endsInMembership_iff hr.last).mpr (h.imp (apart (by decide)) (apart (by decide)))

/-! ### Passing over runs -/

/-- The scan stands outside of quotes and groups. -/
structure GroupScan.Holds (s : GroupScan) (b : Text) : Prop where
  outside : s.within = .outside
  depth : s.depth = 0
  buffer : s.buffer = b

/-- The scan stands right behind a character that is seen, so a bracket belongs to the text. -/
structure GroupScan.Behind (s : GroupScan) (b : Text) : Prop extends GroupScan.Holds s b where
  seen : s.previous.any (fun c => !Text.isBlank c) = true

namespace GroupScan

theorem Behind.startsCall (h : s.Behind b) : s.startsCall = true := by
  rw [GroupScan.startsCall, h.seen]
  rfl

theorem previous_past (ha : a.Tight) (s : GroupScan) :
    (s.past a).previous.any (fun c => !Text.isBlank c) = true := by
  obtain ⟨front, c, rfl⟩ := (List.eq_nil_or_concat' a).resolve_left ha.nonempty
  have seen : Text.isBlank c = false := ha.last c (by simp)
  rw [past_previous]
  simp [seen]

/-- White space is held. -/
theorem Holds.run_gap (h : s.Holds b) (hg : ∀ c ∈ g, Text.isBlank c = true) :
    (s.past g).Holds (b ++ g) ∧ ∀ u, s.run (g ++ u) = (s.past g).run u := by
  refine ⟨⟨?_, ?_, ?_⟩, fun u => ?_⟩
  · rw [past_within, h.outside]
  · rw [past_depth, h.depth]
  · rw [past_buffer, h.buffer]
  · exact run_plain h.outside (fun c hc => isPlainChar_of_isBlank (hg c hc)) u

/-- An atom is held, unless it is a group. -/
theorem Holds.run_atom (h : s.Holds b) (ha : IsAtom a)
    (call : a.head? = some '(' → s.startsCall = true) :
    ∃ s' : GroupScan, s'.Behind (b ++ a) ∧ ∀ u, s.run (a ++ u) = s'.run u := by
  have past : (s.past a).Behind (b ++ a) :=
    { outside := by rw [past_within, h.outside]
      depth := by rw [past_depth, h.depth]
      buffer := by rw [past_buffer, h.buffer]
      seen := previous_past ha.tight s }
  cases ha with
  | @char c plain _ => exact ⟨_, past, run_plain h.outside (by simpa using plain)⟩
  | quote mark quoted => exact ⟨_, past, run_quote h.outside mark quoted⟩
  | @bracket a inner =>
      let inside : GroupScan :=
        { s.hold '(' with depth := 1, openedAt := s.position, call := true }
      have opened : s.step '(' = ([], inside) := by
        simp [inside, step, h.outside, stepOpen, h.depth, call rfl]
      have within : inside.within = .outside := h.outside
      have closed {s' : GroupScan} (outside : s'.within = .outside) (depth : s'.depth = 1)
          (call : s'.call = true) : s'.step ')' = ([], { s'.hold ')' with depth := 0 }) := by
        simp [step, outside, stepClose, depth, call]
      refine ⟨{ (inside.past a).hold ')' with depth := 0 }, ⟨⟨?_, rfl, ?_⟩, rfl⟩, fun u => ?_⟩
      · exact (past_within inside a).trans within
      · have opener : inside.buffer = b ++ ['('] := by
          rw [← h.buffer]
          exact past_buffer s ['(']
        refine (past_buffer (inside.past a) [')']).trans ?_
        rw [past_buffer, opener]
        simp
      · rw [List.cons_append, List.append_assoc, List.singleton_append, run, opened,
          Passes.of_nested inner inside within Nat.one_pos, run,
          closed (by simpa) (past_depth ..) (past_call ..)]
        rfl

/-- A run is held, unless it starts with a group. -/
theorem Holds.run_run (h : s.Holds b) (hr : IsRun r)
    (call : r.head? = some '(' → s.startsCall = true) :
    ∃ s' : GroupScan, s'.Behind (b ++ r) ∧ ∀ u, s.run (r ++ u) = s'.run u := by
  induction hr generalizing s b with
  | atom ha => exact h.run_atom ha call
  | @cons a r ha _ ih =>
      rw [List.head?_append_of_ne_nil _ ha.tight.nonempty] at call
      obtain ⟨s₁, behind, first⟩ := h.run_atom ha call
      obtain ⟨s₂, whole, rest⟩ := ih behind.toHolds fun _ => behind.startsCall
      refine ⟨s₂, by simpa using whole, fun u => ?_⟩
      rw [List.append_assoc, first, rest]

/-- A run that starts with a group: the group is a piece, and the rest of the run is held. -/
theorem Holds.run_group (h : s.Holds b) (noCall : s.startsCall = false) (ha : IsNested a)
    (hr : r = [] ∨ IsRun r) :
    ∃ s' : GroupScan, s'.Behind r ∧
      ∀ u, s.run ('(' :: (a ++ ')' :: (r ++ u))) = textPiece b ++ .group a :: s'.run u := by
  obtain ⟨s₁, outside, depth, empty, previous, run⟩ :=
    (Passes.of_nested ha).run_group h.outside h.depth noCall
  have behind : s₁.Behind [] := ⟨⟨outside, depth, empty⟩, by rw [previous]; rfl⟩
  rw [h.buffer] at run
  rcases hr with rfl | hr
  · exact ⟨s₁, behind, run⟩
  · obtain ⟨s₂, whole, rest⟩ := behind.run_run hr fun _ => behind.startsCall
    refine ⟨s₂, whole, fun u => ?_⟩
    rw [run, rest]

/-- Behind white space only a membership test makes a bracket a part of the text. -/
theorem startsCall_gap (s : GroupScan) (hg : ∀ c ∈ g, Text.isBlank c = true) (hne : g ≠ []) :
    (s.past g).startsCall = endsInMembership s.buffer := by
  obtain ⟨front, c, rfl⟩ := (List.eq_nil_or_concat' g).resolve_left hne
  have blank : Text.isBlank c = true := hg c (by simp)
  rw [GroupScan.startsCall, past_previous, past_buffer, endsInMembership_append_blank _ hg]
  simp [blank]

end GroupScan

/-! ### Pieces -/

/-- A run that starts with a bracket stands behind a membership test. -/
def Linked (fs : List Fragment) : Prop :=
  (fs.map Fragment.text).IsChain fun r next => next.head? = some '(' → endsInMembership r = true

theorem Linked.left (h : Linked (fs ++ gs)) : Linked fs := by
  rw [Linked, List.map_append] at h
  exact h.left_of_append

theorem Linked.right (h : Linked (fs ++ gs)) : Linked gs := by
  rw [Linked, List.map_append] at h
  exact h.right_of_append

theorem Linked.tail (h : Linked (f :: fs)) : Linked fs := List.IsChain.tail h

theorem Spaced.last (h : Spaced (fs ++ [f])) :
    IsRun f.text ∧ (∀ c ∈ f.gap, Text.isBlank c = true) ∧ (fs ≠ [] → f.gap ≠ []) := by
  induction fs with
  | nil =>
      cases h with
      | cons run gap _ _ => exact ⟨run, gap, by simp⟩
  | cons e fs ih =>
      cases h with
      | cons _ _ apart rest =>
          obtain ⟨run, gap, _⟩ := ih rest
          refine ⟨run, gap, fun _ => ?_⟩
          cases fs with
          | nil => exact apart f rfl
          | cons d fs => exact (ih rest).2.2 (by simp)

/-- Whether runs end in a membership test is a matter of the last one. -/
theorem Spaced.endsInMembership_last (h : Spaced (fs ++ [f])) :
    endsInMembership (flatten (fs ++ [f])) = endsInMembership f.text := by
  obtain ⟨run, blank, apart⟩ := h.last
  have whole : flatten (fs ++ [f]) = flatten fs ++ f.gap ++ f.text := by simp
  rw [whole, Bool.eq_iff_iff]
  constructor
  · intro ends
    rcases List.eq_nil_or_concat' f.gap with none | ⟨front, c, gap⟩
    · have first : fs = [] := by
        by_contra hne
        exact apart hne none
      simpa [first, none] using ends
    · rw [gap, List.append_assoc, List.append_assoc, List.singleton_append,
        ← List.append_assoc] at ends
      exact endsInMembership_of_append run.tight (blank c (by simp [gap])) ends
  · intro ends
    exact endsInMembership_append run.tight ends _

theorem Linked.concat (h : Linked fs) (spaced : Spaced fs)
    (call : f.text.head? = some '(' → fs ≠ [] → endsInMembership (flatten fs) = true) :
    Linked (fs ++ [f]) := by
  rw [Linked, List.map_append, List.isChain_append]
  refine ⟨h, List.isChain_singleton _, ?_⟩
  intro r hr next hn opener
  obtain rfl : f.text = next := by simpa using hn
  rcases List.eq_nil_or_concat' fs with rfl | ⟨front, l, rfl⟩
  · simp at hr
  · obtain rfl : l.text = r := by simpa using hr
    rw [← spaced.endsInMembership_last]
    exact call opener (by simp)

/-- What a balanced text is cut into. -/
inductive Piece.IsWhole : Piece → Prop
  | text {fs : List Fragment} {g : Text} (spaced : Spaced fs) (linked : Linked fs)
      (blank : ∀ c ∈ g, Text.isBlank c = true) : IsWhole (.text (flatten fs ++ g))
  | group {a : Text} (inner : IsNested a) : IsWhole (.group a)

theorem isWhole_textPiece (spaced : Spaced fs) (linked : Linked fs)
    (blank : ∀ c ∈ g, Text.isBlank c = true) : ∀ p ∈ textPiece (flatten fs ++ g), p.IsWhole := by
  intro p hp
  rw [textPiece] at hp
  split at hp
  · contradiction
  · rw [List.mem_singleton.mp hp]
    exact .text spaced linked blank

/-- By induction on the runs to come: those held are linked. -/
theorem GroupScan.Holds.isWhole_run (h : s.Holds (flatten gs)) (held : Spaced gs)
    (linked : Linked gs) (hfs : Spaced fs) (apart : gs ≠ [] → StartsApart fs)
    (blank : ∀ c ∈ u, Text.isBlank c = true) : ∀ p ∈ s.run (flatten fs ++ u), p.IsWhole := by
  induction hfs generalizing s gs with
  | nil =>
      obtain ⟨after, run⟩ := h.run_gap blank
      have ending := run []
      rw [List.append_nil] at ending
      rw [flatten_nil, List.nil_append, ending, run_nil after.depth, after.buffer]
      exact isWhole_textPiece held linked blank
  | @cons f fs hr gap startsApart _ ih =>
      obtain ⟨before, skip⟩ := h.run_gap gap
      have apart' : gs ≠ [] → f.gap ≠ [] := fun hne => apart hne f rfl
      rw [flatten_cons, List.append_assoc, List.append_assoc, skip]
      -- a group ends the text held, and what is glued to its end is held next; any other run is
      -- held with the rest
      by_cases group : f.text.head? = some '(' ∧ (s.past f.gap).startsCall = false
      · obtain ⟨a, r, split, inner, rest⟩ := hr.exists_bracket group.1
        obtain ⟨s', behind, run⟩ := before.run_group group.2 inner rest
        rw [split, List.cons_append, List.append_assoc, List.cons_append, run]
        intro p hp
        rcases List.mem_append.mp hp with hp | hp
        · exact isWhole_textPiece held linked gap p hp
        rcases List.mem_cons.mp hp with rfl | hp
        · exact .group inner
        rcases rest with rfl | rest
        · exact ih behind.toHolds .nil (by simp [Linked]) (by simp) p hp
        · have held : s'.Holds (flatten [⟨[], r⟩]) := by simpa using behind.toHolds
          exact ih held (.singleton rest) (by simp [Linked]) (fun _ => startsApart) p hp
      · have call : f.text.head? = some '(' → (s.past f.gap).startsCall = true := by
          simpa using group
        obtain ⟨s', behind, run⟩ := before.run_run hr call
        have longer : Spaced (gs ++ [f]) :=
          held.append (.cons hr gap (by simp [StartsApart]) .nil) fun hne => by
            simpa [StartsApart] using apart' hne
        have link : Linked (gs ++ [f]) := linked.concat held fun opener hne => by
          rw [← h.buffer, ← startsCall_gap s gap (apart' hne)]
          exact call opener
        rw [run]
        exact ih (by simpa using behind.toHolds) longer link fun _ => startsApart

/-- Linked runs are held one after the other, unless a group stands in front. -/
theorem GroupScan.Holds.run_linked (h : s.Holds b) (spaced : Spaced fs) (linked : Linked fs)
    (call : ∀ f ∈ fs.head?, f.text.head? = some '(' → (s.past f.gap).startsCall = true) :
    ∃ s' : GroupScan, s'.Holds (b ++ flatten fs) ∧ ∀ u, s.run (flatten fs ++ u) = s'.run u := by
  induction spaced generalizing s b with
  | nil => exact ⟨s, by simpa using h, fun u => rfl⟩
  | @cons f fs run gap apart rest ih =>
      obtain ⟨before, skip⟩ := h.run_gap gap
      obtain ⟨s₁, behind, first⟩ := before.run_run run (call f rfl)
      have link := List.isChain_cons.mp (linked : List.IsChain _ (f.text :: fs.map Fragment.text))
      obtain ⟨s₂, whole, others⟩ := ih behind.toHolds link.2 fun e he opener => by
        have blank : ∀ c ∈ e.gap, Text.isBlank c = true := by
          cases rest with
          | nil => cases he
          | cons _ gap _ _ =>
              obtain rfl := Option.some.inj he
              exact gap
        -- the gap makes the scan look at the end of the text held, which is the run before
        have ends : endsInMembership f.text = true :=
          link.1 e.text (by simpa using ⟨e, he, rfl⟩) opener
        rw [startsCall_gap s₁ blank (apart e he), behind.buffer]
        exact endsInMembership_append run.tight ends _
      refine ⟨s₂, by simpa using whole, fun u => ?_⟩
      rw [flatten_cons, List.append_assoc, List.append_assoc, skip, first, others]

/-- The pieces of a balanced text are linked runs and balanced texts, with no bracket left. -/
theorem isWhole_pieces (h : IsNested t) : ∀ p ∈ pieces t, p.IsWhole := by
  obtain ⟨fs, after, spaced, blank, rfl⟩ := h.isSpaced
  have start : GroupScan.Holds {} (flatten []) := ⟨rfl, rfl, rfl⟩
  exact start.isWhole_run .nil (by simp [Linked]) spaced (by simp) blank

end LogQuery.FilterTree
