import LogQuery.Proofs.Tree.Pieces

/-!
# Brackets without a partner

What is said here of a filter text goes by the text itself: a bracket that closes where none is
open, and a bracket that is deeper in everything behind it, stand without a partner. The scan for
groups reports the first kind one by one, and of the second kind the outermost. The inside of a
group is balanced, so reading the groups in it reports nothing more.
-/

namespace LogQuery.FilterTree

variable {b t u : Text} {s : GroupScan} {c : Char} {d n : Nat} {ps : List Piece}

/-! ### Brackets by what stands around them -/

/-- Where the end of a text stands with respect to quotes and round brackets. -/
def placeAfter (t : Text) : Place := t.foldl (Place.step filterRules) {}

/-- The length of a text in UTF-8. -/
def byteLength (t : Text) : Nat := (t.map Char.utf8Size).sum

/-- The characters of a text that stands behind another one, each with the text before it and the
text behind it. -/
def splitsBehind (before : Text) : Text → List (Text × Char × Text)
  | [] => []
  | c :: rest => (before, c, rest) :: splitsBehind (before ++ [c]) rest

def splits (t : Text) : List (Text × Char × Text) := splitsBehind [] t

/-- A closing bracket outside of quotes, with no bracket open. -/
def isStray (before : Text) (c : Char) : Bool := c == ')' && (placeAfter before).isTop

/-- An opening bracket outside of quotes, with everything behind it deeper than the text
before. -/
def isUnclosed (before : Text) (c : Char) (rest : Text) : Bool :=
  c == '(' && (placeAfter before).within == .outside &&
    rest.inits.all fun next =>
      (placeAfter before).depth < (placeAfter (before ++ [c] ++ next)).depth

/-- The byte positions of the closing brackets without a partner. -/
def strayClosers (ss : List (Text × Char × Text)) : List Nat :=
  (ss.filter fun s => isStray s.1 s.2.1).map fun s => byteLength s.1

/-- The byte position of the first opening bracket without a partner. The others stand inside of
it. -/
def firstUnclosed? (ss : List (Text × Char × Text)) : Option Nat :=
  (ss.find? fun s => isUnclosed s.1 s.2.1 s.2.2).map fun s => byteLength s.1

/-- The round brackets outside of quotes. -/
def brackets (ss : List (Text × Char × Text)) : Text :=
  (ss.filter fun s =>
    (placeAfter s.1).within == .outside && (s.2.1 == '(' || s.2.1 == ')')).map fun s => s.2.1

/-- Behind so many open brackets: as many close as open, and none before it is open. -/
def IsPaired (opened : Nat) (b : Text) : Prop :=
  opened + b.count '(' = b.count ')' ∧ ∀ p, p <+: b → p.count ')' ≤ opened + p.count '('

/-- The positions among the errors. -/
def unbalanced (es : List TreeError) : List Nat :=
  es.filterMap fun e => match e with
    | .unbalanced position => some position
    | .nestingTooDeep => none

/-! ### Counting brackets -/

theorem placeAfter_concat (b : Text) (c : Char) :
    placeAfter (b ++ [c]) = (placeAfter b).step filterRules c := by
  simp [placeAfter]

theorem byteLength_concat (b : Text) (c : Char) :
    byteLength (b ++ [c]) = byteLength b + c.utf8Size := by
  simp [byteLength]

/-- No backslash escapes outside of quotes. -/
theorem placeAfter_escaped (b : Text) : (placeAfter b).escaped = false := by
  induction b using List.reverseRecOn with
  | nil => rfl
  | append_singleton b c ih =>
      rw [placeAfter_concat, Place.step]
      simp only [ih, filterRules]
      split_ifs <;> simp_all

theorem isPaired_nil : IsPaired d [] ↔ d = 0 := by
  simp [IsPaired]

theorem isPaired_open : IsPaired d ('(' :: b) ↔ IsPaired (d + 1) b := by
  simp only [IsPaired, List.prefix_cons_iff]
  constructor
  · rintro ⟨total, early⟩
    refine ⟨by simpa [Nat.add_assoc, Nat.add_comm 1] using total, fun p hp => ?_⟩
    have longer := early ('(' :: p) (.inr ⟨p, rfl, hp⟩)
    simpa [Nat.add_assoc, Nat.add_comm 1] using longer
  · rintro ⟨total, early⟩
    refine ⟨by simpa [Nat.add_assoc, Nat.add_comm 1] using total, ?_⟩
    rintro _ (rfl | ⟨p, rfl, hp⟩)
    · simp
    · simpa [Nat.add_assoc, Nat.add_comm 1] using early p hp

theorem isPaired_close : IsPaired d (')' :: b) ↔ 0 < d ∧ IsPaired (d - 1) b := by
  simp only [IsPaired, List.prefix_cons_iff]
  constructor
  · rintro ⟨total, early⟩
    have some : 1 ≤ d := by simpa using early [')'] (.inr ⟨[], rfl, List.nil_prefix⟩)
    refine ⟨some, ?_, fun p hp => ?_⟩
    · simp at total
      omega
    · have longer := early (')' :: p) (.inr ⟨p, rfl, hp⟩)
      simp at longer
      omega
  · rintro ⟨some, total, early⟩
    refine ⟨by simp; omega, ?_⟩
    rintro _ (rfl | ⟨p, rfl, hp⟩)
    · simp
    · have shorter := early p hp
      simp
      omega

/-! ### What the scan reports -/

theorem pieceErrors_append (ps qs : List Piece) :
    pieceErrors (ps ++ qs) = pieceErrors ps ++ pieceErrors qs := List.filterMap_append

@[simp] theorem pieceErrors_textPiece (t : Text) : pieceErrors (textPiece t) = [] := by
  unfold textPiece
  split <;> rfl

@[simp] theorem pieceErrors_nil : pieceErrors [] = [] := rfl

@[simp] theorem pieceErrors_group (a : Text) : pieceErrors [.group a] = [] := rfl

@[simp] theorem pieceErrors_unbalanced_cons (n : Nat) (ps : List Piece) :
    pieceErrors (.unbalanced n :: ps) = .unbalanced n :: pieceErrors ps := rfl

theorem unbalanced_append (xs ys : List TreeError) :
    unbalanced (xs ++ ys) = unbalanced xs ++ unbalanced ys := List.filterMap_append

namespace GroupScan

/-- The place of a scan among quotes and brackets. -/
def place (s : GroupScan) : Place := { depth := s.depth, within := s.within }

/-- What one character changes, whether it belongs to a group, to a call or to the text. -/
structure Moves (s : GroupScan) (c : Char) : Prop where
  place : (s.step c).2.place = s.place.step filterRules c
  position : (s.step c).2.position = s.position + c.utf8Size
  openedAt : (s.step c).2.openedAt =
    if c == '(' && s.place.isTop then s.position else s.openedAt
  errors : pieceErrors (s.step c).1 =
    if c == ')' && s.place.isTop then [.unbalanced s.position] else []

theorem moves_open (outside : s.within = .outside) : s.Moves '(' := by
  have found : s.step '(' = s.stepOpen := by simp [step, outside]
  rcases Nat.eq_zero_or_pos s.depth with top | deep
  · cases call : s.startsCall <;> constructor <;>
      simp [found, stepOpen, hold, place, Place.step, Place.isTop, filterRules, top, outside, call]
  · have depth : s.depth ≠ 0 := deep.ne'
    constructor <;>
      simp [found, stepOpen, hold, place, Place.step, Place.isTop, filterRules, deep, depth,
        outside]

theorem moves_close (outside : s.within = .outside) : s.Moves ')' := by
  have found : s.step ')' = s.stepClose := by simp [step, outside]
  cases deep : s.depth with
  | zero =>
      constructor <;>
        simp [found, stepClose, hold, place, Place.step, Place.isTop, filterRules, deep, outside]
  | succ depth =>
      cases ends : depth == 0 && !s.call <;> constructor <;>
        simp [found, stepClose, hold, place, Place.step, Place.isTop, filterRules, deep, outside,
          ends]

theorem moves_other (h : s.within = .outside → c ≠ '(' ∧ c ≠ ')') : s.Moves c := by
  have found : s.step c = ([], { s.hold c with within := s.within.step false c }) := by
    by_cases outside : s.within = .outside <;> simp_all [step]
  by_cases outside : s.within = .outside
  · constructor <;> simp [found, hold, place, Place.step, filterRules, outside, h outside]
  · constructor <;>
      simp [found, hold, place, Place.step, Place.isTop, filterRules, outside]

theorem moves (s : GroupScan) (c : Char) : s.Moves c := by
  by_cases outside : s.within = .outside
  · by_cases opener : c = '('
    · exact opener ▸ moves_open outside
    by_cases closer : c = ')'
    · exact closer ▸ moves_close outside
    · exact moves_other fun _ => ⟨opener, closer⟩
  · exact moves_other fun h => absurd h outside

/-- The scan has read the text. -/
structure Follows (s : GroupScan) (b : Text) : Prop where
  place : s.place = placeAfter b
  position : s.position = byteLength b

theorem follows_start : Follows {} [] := ⟨rfl, rfl⟩

theorem Follows.step (h : s.Follows b) (c : Char) : (s.step c).2.Follows (b ++ [c]) where
  place := by rw [(s.moves c).place, h.place, placeAfter_concat]
  position := by rw [(s.moves c).position, h.position, byteLength_concat]

/-- The scan ends with a report of the bracket that is open. -/
theorem pieceErrors_finish (s : GroupScan) :
    pieceErrors s.finish = if 0 < s.depth then [.unbalanced s.openedAt] else [] := by
  rw [finish]
  split <;> simp

end GroupScan

/-! ### The reports of a scan -/

/-- A bracket stays open to the end of the text behind. -/
def staysOpen (b t : Text) : Bool := t.inits.all fun next => 0 < (placeAfter (b ++ next)).depth

theorem staysOpen_nil : staysOpen b [] = decide (0 < (placeAfter b).depth) := by
  simp [staysOpen]

theorem staysOpen_cons :
    staysOpen b (c :: t) = (decide (0 < (placeAfter b).depth) && staysOpen (b ++ [c]) t) := by
  simp [staysOpen, Function.comp_def]

theorem staysOpen_of_depth (h : (placeAfter b).depth = 0) (t : Text) : staysOpen b t = false := by
  cases t <;> simp [staysOpen_nil, staysOpen_cons, h]

theorem staysOpen_of_isUnclosed (h : isUnclosed b c t = true) : staysOpen (b ++ [c]) t = true := by
  simp only [isUnclosed, Bool.and_eq_true, List.all_eq_true, decide_eq_true_eq] at h
  simp only [staysOpen, List.all_eq_true, decide_eq_true_eq]
  exact fun next found => Nat.zero_lt_of_lt (h.2 next found)

/-- At the top, what stays open behind an opening bracket is that bracket. -/
theorem isUnclosed_of_isTop (h : (placeAfter b).isTop = true) :
    isUnclosed b c t = (c == '(' && staysOpen (b ++ [c]) t) := by
  simp only [Place.isTop, Bool.and_eq_true, beq_iff_eq] at h
  simp [isUnclosed, staysOpen, h.1]

theorem strayClosers_cons (ss : List (Text × Char × Text)) :
    strayClosers ((b, c, t) :: ss) =
      (if isStray b c then [byteLength b] else []) ++ strayClosers ss := by
  simp only [strayClosers, List.filter_cons]
  split <;> rfl

theorem firstUnclosed?_cons (ss : List (Text × Char × Text)) :
    firstUnclosed? ((b, c, t) :: ss) =
      if isUnclosed b c t then some (byteLength b) else firstUnclosed? ss := by
  simp only [firstUnclosed?, List.find?_cons]
  split <;> simp_all

/-- Only an opening bracket leads into one. -/
theorem opens_of_depth (h : (placeAfter b).depth = 0) (deep : 0 < (placeAfter (b ++ [c])).depth) :
    c = '(' ∧ (placeAfter b).isTop = true := by
  rw [placeAfter_concat] at deep
  by_cases outside : (placeAfter b).within = .outside
  · by_cases opener : c = '('
    · exact ⟨opener, by simp [Place.isTop, h, outside, placeAfter_escaped]⟩
    · by_cases closer : c = ')' <;>
        simp [Place.step, filterRules, placeAfter_escaped, outside, opener, closer, h] at deep
  · simp [Place.step, placeAfter_escaped, outside, h] at deep

/-- The scan reports the closing brackets without a partner, and then the bracket that is open if
it stays so, or else the next one that does. -/
theorem GroupScan.Follows.unbalanced_run (h : s.Follows b) (t : Text) :
    unbalanced (pieceErrors (s.run t)) = strayClosers (splitsBehind b t) ++
      if staysOpen b t then [s.openedAt] else (firstUnclosed? (splitsBehind b t)).toList := by
  induction t generalizing s b with
  | nil =>
      have depth : s.depth = (placeAfter b).depth := congrArg Place.depth h.place
      rw [run, pieceErrors_finish, depth, staysOpen_nil]
      by_cases deep : 0 < (placeAfter b).depth <;>
        simp [deep, unbalanced, strayClosers, firstUnclosed?, splitsBehind]
  | cons c t ih =>
      have stray : unbalanced (pieceErrors (s.step c).1) =
          if isStray b c then [byteLength b] else [] := by
        rw [(s.moves c).errors, h.place, h.position, isStray]
        split <;> rfl
      have opened : (s.step c).2.openedAt =
          if c == '(' && (placeAfter b).isTop then byteLength b else s.openedAt := by
        rw [(s.moves c).openedAt, h.place, h.position]
      rw [run, pieceErrors_append, unbalanced_append, ih (h.step c), stray, opened, splitsBehind,
        strayClosers_cons, firstUnclosed?_cons, staysOpen_cons, List.append_assoc]
      congr 2
      cases stays : staysOpen (b ++ [c]) t with
      | false =>
          have closed : isUnclosed b c t = false :=
            Bool.eq_false_iff.mpr fun open? => by simp [staysOpen_of_isUnclosed open?] at stays
          simp [closed]
      | true =>
          rcases Nat.eq_zero_or_pos (placeAfter b).depth with zero | deep
          · have deeper : 0 < (placeAfter (b ++ [c])).depth := by
              by_contra none
              simp [staysOpen_of_depth (Nat.eq_zero_of_not_pos none)] at stays
            obtain ⟨rfl, top⟩ := opens_of_depth zero deeper
            simp [isUnclosed_of_isTop top, stays, top, zero]
          · have inner : (placeAfter b).isTop = false := by simp [Place.isTop, deep.ne']
            simp [inner, deep]

theorem brackets_cons (ss : List (Text × Char × Text)) :
    brackets ((b, c, t) :: ss) =
      (if (placeAfter b).within == .outside && (c == '(' || c == ')') then [c] else []) ++
        brackets ss := by
  simp only [brackets, List.filter_cons]
  split <;> rfl

/-- Behind open brackets a scan reports nothing exactly if they are closed and the brackets to come
stand in pairs. -/
theorem GroupScan.Follows.unbalanced_run_eq_nil_iff (h : s.Follows b) (t : Text) :
    unbalanced (pieceErrors (s.run t)) = [] ↔
      IsPaired (placeAfter b).depth (brackets (splitsBehind b t)) := by
  induction t generalizing s b with
  | nil =>
      have depth : s.depth = (placeAfter b).depth := congrArg Place.depth h.place
      have none : brackets (splitsBehind b []) = [] := rfl
      rw [run, pieceErrors_finish, depth, none, isPaired_nil]
      by_cases deep : 0 < (placeAfter b).depth
      · simp [deep, unbalanced, deep.ne']
      · simp [unbalanced, Nat.eq_zero_of_not_pos deep]
  | cons c t ih =>
      have stray : unbalanced (pieceErrors (s.step c).1) = [] ↔ isStray b c = false := by
        rw [(s.moves c).errors, h.place, isStray]
        split <;> simp_all [unbalanced]
      rw [run, pieceErrors_append, unbalanced_append, List.append_eq_nil_iff, ih (h.step c), stray,
        splitsBehind, brackets_cons, placeAfter_concat, Place.step]
      by_cases outside : (placeAfter b).within = .outside
      · by_cases opener : c = '('
        · simp [opener, outside, isStray, placeAfter_escaped, filterRules, isPaired_open]
        by_cases closer : c = ')'
        · simp [closer, outside, isStray, placeAfter_escaped, filterRules, isPaired_close,
            Place.isTop, Nat.pos_iff_ne_zero]
        · simp [opener, closer, outside, isStray, placeAfter_escaped, filterRules]
      · simp [outside, isStray, placeAfter_escaped, Place.isTop]

/-! ### The inside of groups -/

/-- A scan in a group has passed over text that closes the brackets opened in it, but for those
still open. -/
def GroupScan.InGroup (s : GroupScan) : Prop :=
  0 < s.depth → s.call = false →
    ∃ a, s.buffer = '(' :: a ∧
      ∀ u, closes 0 .outside (a ++ u) = closes (s.depth - 1) s.within u

namespace GroupScan

theorem InGroup.hold {s' : GroupScan} (h : s.InGroup) (held : s'.held = c :: s.held)
    (call : s'.call = s.call) (deep : 0 < s'.depth → 0 < s.depth ∧
      ∀ u, closes (s.depth - 1) s.within (c :: u) = closes (s'.depth - 1) s'.within u) :
    s'.InGroup := by
  intro deeper group
  obtain ⟨some, count⟩ := deep deeper
  obtain ⟨a, buffer, inner⟩ := h some (call ▸ group)
  refine ⟨a ++ [c], ?_, fun u => ?_⟩
  · rw [GroupScan.buffer, held, List.reverse_cons, ← GroupScan.buffer, buffer, List.cons_append]
  · rw [List.append_assoc, List.singleton_append, inner, count]

theorem InGroup.stepOpen (h : s.InGroup) (outside : s.within = .outside) :
    s.stepOpen.2.InGroup ∧ ∀ a, .group a ∉ s.stepOpen.1 := by
  rw [GroupScan.stepOpen]
  split_ifs with deep call
  · refine ⟨h.hold rfl rfl fun _ => ⟨deep, fun u => ?_⟩, by simp⟩
    have one : s.depth - 1 + 1 = s.depth := Nat.sub_add_cancel deep
    simp [GroupScan.hold, closes, outside, one]
  · refine ⟨fun _ group => ?_, by simp⟩
    exact absurd (call.symm.trans group) (by simp)
  · refine ⟨fun _ _ => ⟨[], rfl, fun u => ?_⟩, fun a => ?_⟩
    · simp [GroupScan.hold, outside]
    · simp [textPiece]

theorem InGroup.stepClose (h : s.InGroup) (outside : s.within = .outside) :
    s.stepClose.2.InGroup ∧ ∀ a, .group a ∈ s.stepClose.1 → IsNested a := by
  rw [GroupScan.stepClose]
  split
  · next top =>
    refine ⟨fun deep => ?_, fun a => ?_⟩
    · exact absurd deep (by simp [GroupScan.hold, top])
    · simp [textPiece]
  · next depth deep =>
    split_ifs with ends
    · simp only [Bool.and_eq_true, beq_iff_eq, Bool.not_eq_true'] at ends
      obtain ⟨rfl, group⟩ := ends
      obtain ⟨a, buffer, inner⟩ := h (by omega) group
      refine ⟨fun deep => absurd deep (by simp), fun x found => ?_⟩
      obtain rfl : x = a := by simpa [buffer] using found
      have whole := inner []
      rw [List.append_nil, deep, outside] at whole
      exact isNested_iff.mpr whole
    · refine ⟨h.hold rfl rfl fun deeper => ⟨by omega, fun u => ?_⟩, by simp⟩
      obtain ⟨n, rfl⟩ := Nat.exists_eq_succ_of_ne_zero (Nat.ne_of_gt deeper)
      simp [GroupScan.hold, closes, outside, deep]

/-- One character keeps the scan in its group, or completes a group that is balanced. -/
theorem InGroup.step (h : s.InGroup) (c : Char) :
    (s.step c).2.InGroup ∧ ∀ a, .group a ∈ (s.step c).1 → IsNested a := by
  rw [GroupScan.step]
  split_ifs with opener closer
  · simp only [Bool.and_eq_true, beq_iff_eq] at opener
    obtain ⟨kept, none⟩ := h.stepOpen opener.1
    exact ⟨kept, fun a found => absurd found (none a)⟩
  · simp only [Bool.and_eq_true, beq_iff_eq] at closer
    exact h.stepClose closer.1
  · refine ⟨h.hold rfl rfl fun deep => ⟨deep, fun u => ?_⟩, by simp⟩
    simp [closes, opener, closer, GroupScan.hold]

theorem InGroup.isNested_run (h : s.InGroup) (t : Text) : ∀ a, .group a ∈ s.run t → IsNested a := by
  induction t generalizing s with
  | nil =>
      intro a found
      rw [run, finish, textPiece] at found
      split_ifs at found <;> simp at found
  | cons c t ih =>
      intro a found
      rw [run, List.mem_append] at found
      rcases found with here | later
      · exact (h.step c).2 a here
      · exact ih (h.step c).1 a later

end GroupScan

/-- The inside of a group is balanced, whatever the text around it is. -/
theorem isNested_group {a : Text} (h : .group a ∈ pieces t) : IsNested a := by
  have start : GroupScan.InGroup {} := fun deep => absurd deep (by decide)
  exact start.isNested_run t a h

/-! ### All levels -/

theorem unbalanced_pieces_of_isNested {a : Text} (h : IsNested a) :
    unbalanced (pieceErrors (pieces a)) = [] := by
  have none : pieceErrors (pieces a) = [] := by
    rw [pieceErrors, List.filterMap_eq_nil_iff]
    intro p found
    cases isWhole_pieces h p found <;> rfl
  rw [none]
  rfl

/-- Errors in groups are errors of the whole text, behind those of its own pieces. -/
theorem unbalanced_ofPieces {group : Text → Item × List TreeError}
    (h : ∀ a, .group a ∈ ps → unbalanced (group a).2 = []) :
    unbalanced (ofPieces group ps).errors = unbalanced (pieceErrors ps) := by
  have inner : unbalanced ((ps.map (pieceItems group)).flatMap Prod.snd) = [] := by
    rw [unbalanced, List.filterMap_eq_nil_iff]
    intro e found
    obtain ⟨_, read, he⟩ := List.mem_flatMap.mp found
    obtain ⟨p, hp, rfl⟩ := List.mem_map.mp read
    cases p with
    | text t => simp [pieceItems] at he
    | unbalanced n => simp [pieceItems] at he
    | group a => exact List.filterMap_eq_nil_iff.mp (h a hp) e he
  rw [ofPieces, unbalanced_append, inner, List.append_nil]

/-- By induction on the levels: the inside of a group reports nothing. -/
theorem unbalanced_readWithin (n : Nat) (t : Text) :
    unbalanced (readWithin n t).errors = unbalanced (pieceErrors (pieces t)) := by
  induction n generalizing t with
  | zero => exact unbalanced_ofPieces fun _ _ => rfl
  | succ n ih =>
      refine unbalanced_ofPieces fun a found => ?_
      exact (ih a).trans (unbalanced_pieces_of_isNested (isNested_group found))

/-- Where a filter text has a tree, the brackets reported are the closing ones without a partner,
each at its byte position, and then the outermost opening one that is never closed. So nothing is
reported exactly if the round brackets outside of quotes stand in pairs. -/
theorem unbalanced_read (t : Text) (h : (read t).tree.isEmpty = false) :
    unbalanced (read t).errors =
        strayClosers (splits t) ++ (firstUnclosed? (splits t)).toList ∧
      (unbalanced (read t).errors = [] ↔ IsPaired 0 (brackets (splits t))) := by
  have errors : unbalanced (read t).errors = unbalanced (pieceErrors (pieces t)) := by
    unfold read at h ⊢
    dsimp only at h ⊢
    split at h
    · next empty => exact absurd (h.symm.trans empty) (by simp)
    · next some =>
      rw [if_neg some]
      exact unbalanced_readWithin _ t
  have top : (placeAfter []).depth = 0 := rfl
  have reports := GroupScan.follows_start.unbalanced_run t
  rw [staysOpen_of_depth top] at reports
  rw [errors]
  exact ⟨reports, GroupScan.follows_start.unbalanced_run_eq_nil_iff t⟩

/-- Closing brackets without a partner before and behind a group, brackets in quotes, a letter of
two bytes, and a call that is never closed with another bracket open in it. -/
theorem unbalanced_read_calls :
    let t : Text := "é) (a \")\") b) f(x (y)(z"
    (read t).tree.isEmpty = false ∧
      unbalanced (read t).errors = [2, 13, 16] ∧
      strayClosers (splits t) ++ (firstUnclosed? (splits t)).toList = [2, 13, 16] ∧
      ¬ IsPaired 0 (brackets (splits t)) := by
  intro t
  have some : (read t).tree.isEmpty = false := by decide
  have reported : strayClosers (splits t) ++ (firstUnclosed? (splits t)).toList = [2, 13, 16] := by
    decide
  obtain ⟨errors, paired⟩ := unbalanced_read t some
  have found : unbalanced (read t).errors = [2, 13, 16] := errors.trans reported
  refine ⟨some, found, reported, fun pairs => ?_⟩
  rw [paired.mpr pairs] at found
  contradiction

end LogQuery.FilterTree
