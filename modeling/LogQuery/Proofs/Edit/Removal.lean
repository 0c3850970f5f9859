import LogQuery.Proofs.Edit.Head

/-!
# Taking a word out

The first word that a filter matches is taken out, and the words around it close the gap. Which
words are left is a matter of their round brackets and of the connectives beside the gap, so it is
said here once, for every word and all its neighbours.
-/

namespace LogQuery

namespace LabelEdit

variable {p : Text → Bool} {key value q w word c : Text} {before after ws ws' b a : List Text}

/-! ### The first match -/

theorem cutFirst?_append (absent : ∀ w ∈ before, p w = false) (found : p word = true)
    (after : List Text) : cutFirst? p (before ++ word :: after) = some (before, word, after) := by
  induction before with
  | nil => rw [List.nil_append, cutFirst?, if_pos found]
  | cons w before ih =>
      rw [List.cons_append, cutFirst?, absent w (by simp), ih fun x hx => absent x (by simp [hx])]
      rfl

theorem cutFirst?_eq_none (absent : ∀ w ∈ ws, p w = false) : cutFirst? p ws = none := by
  induction ws with
  | nil => rfl
  | cons w ws ih =>
      rw [cutFirst?, absent w (by simp), ih fun x hx => absent x (by simp [hx])]
      rfl

theorem exists_first (h : ws.any p = true) : ∃ before word after,
    ws = before ++ word :: after ∧ p word = true ∧ ∀ w ∈ before, p w = false := by
  induction ws with
  | nil => contradiction
  | cons w ws ih =>
      by_cases found : p w = true
      · exact ⟨[], w, ws, rfl, found, by simp⟩
      · rw [List.any_cons, Bool.or_eq_true] at h
        obtain ⟨before, word, after, rfl, first, absent⟩ := ih (h.resolve_left found)
        exact ⟨w :: before, word, after, rfl, first, by simpa [found] using absent⟩

theorem remove_of_absent (h : has key value q = false) : remove key value q = q := by
  have absent : ∀ w ∈ words (splitHead q).1, isFilter key value w = false := by
    simpa [has] using h
  rw [remove, cutFirst?_eq_none absent]

/-- The first match is taken out of the words of the head. -/
theorem remove_eq (split : words (splitHead q).1 = before ++ word :: after)
    (absent : ∀ w ∈ before, isFilter key value w = false) (found : isFilter key value word = true) :
    remove key value q =
      joinHead (Text.join " " (takeOut before word after)) (splitHead q).2 := by
  rw [remove, split, cutFirst?_append absent found]

/-! ### Words without their brackets -/

/-- How many round brackets the word starts with. -/
def openings (w : Text) : Nat := (w.takeWhile (· == '(')).length

/-- How many round brackets the word ends with. -/
def closings (w : Text) : Nat := (w.reverse.takeWhile (· == ')')).length

theorem openings_eq_zero (h : w.head? ≠ some '(') : openings w = 0 := by
  cases w with
  | nil => rfl
  | cons c w =>
      rw [openings, List.takeWhile_cons_of_neg (by simpa using h)]
      rfl

theorem closings_eq_zero (h : w.getLast? ≠ some ')') : closings w = 0 := by
  rw [← List.head?_reverse] at h
  rw [closings]
  cases hr : w.reverse with
  | nil => rfl
  | cons c cs =>
      rw [hr] at h
      rw [List.takeWhile_cons_of_neg (by simpa using h)]
      rfl

/-- The word without the round brackets at its ends. -/
def unbracketed (w : Text) : Text := Text.dropEndWhile (· == ')') (w.dropWhile (· == '('))

theorem unbracketed_eq_self (first : w.head? ≠ some '(') (last : w.getLast? ≠ some ')') :
    unbracketed w = w := by
  have start : w.dropWhile (· == '(') = w := by
    cases w with
    | nil => rfl
    | cons c w => exact List.dropWhile_cons_of_neg (by simpa using first)
  rw [unbracketed, start]
  refine Text.dropEndWhile_eq_self fun c hc => ?_
  simpa using fun same : c = ')' => last (same ▸ hc)

theorem mem_of_mem_unbracketed {d : Char} (h : d ∈ unbracketed w) : d ∈ w := by
  rw [unbracketed, Text.dropEndWhile, List.mem_reverse] at h
  have inner := (List.dropWhile_sublist _).subset h
  exact (List.dropWhile_sublist _).subset (List.mem_reverse.mp inner)

theorem takeWhile_beq (c : Char) (t : Text) :
    t.takeWhile (· == c) = List.replicate (t.takeWhile (· == c)).length c :=
  List.eq_replicate_of_mem fun _ hd => by simpa using List.mem_takeWhile_imp hd

/-- No round bracket of one kind starts or ends a run of the other kind. -/
theorem closings_replicate_append (k : Nat) (t : Text) :
    closings (List.replicate k '(' ++ t) = closings t := by
  have none : (List.replicate k '(').takeWhile (· == ')') = [] := by
    cases k <;> rfl
  rw [closings, List.reverse_append, List.reverse_replicate, List.takeWhile_append, none,
    List.append_nil]
  split
  · next all => rw [closings, all]
  · rfl

/-- A word is made of the brackets at its ends and of what is left without them. -/
theorem eq_replicate_append (w : Text) :
    w = List.replicate (openings w) '(' ++ (unbracketed w ++ List.replicate (closings w) ')') := by
  let x := w.dropWhile (· == '(')
  have start : w = List.replicate (openings w) '(' ++ x := by
    rw [openings, ← takeWhile_beq, List.takeWhile_append_dropWhile]
  have ending : x = unbracketed w ++ List.replicate (closings x) ')' := by
    have split : x.reverse.takeWhile (· == ')') ++ x.reverse.dropWhile (· == ')') = x.reverse :=
      List.takeWhile_append_dropWhile
    rw [takeWhile_beq] at split
    have whole := congrArg List.reverse split
    rw [List.reverse_append, List.reverse_replicate, List.reverse_reverse] at whole
    exact whole.symm
  have same : closings w = closings x := by
    rw [start, closings_replicate_append]
  rw [same, ← ending, ← start]

theorem unbracketed_replicate_append (k : Nat) (w : Text) :
    unbracketed (List.replicate k '(' ++ w) = unbracketed w := by
  rw [unbracketed, List.dropWhile_append_of_pos (by simp [List.mem_replicate])]
  rfl

theorem unbracketed_append_replicate (w : Text) (k : Nat) :
    unbracketed (w ++ List.replicate k ')') = unbracketed w := by
  have kept : (w ++ List.replicate k ')').dropWhile (· == '(') =
      w.dropWhile (· == '(') ++ List.replicate k ')' := by
    have closers : (List.replicate k ')').dropWhile (· == '(') = List.replicate k ')' := by
      cases k <;> rfl
    rw [List.dropWhile_append, closers]
    split
    · next none => rw [List.isEmpty_iff.mp none, List.nil_append]
    · rfl
  rw [unbracketed, kept, Text.dropEndWhile, List.reverse_append, List.reverse_replicate,
    List.dropWhile_append_of_pos (by simp [List.mem_replicate])]
  rfl

/-- What a filter without brackets around compares its key with. -/
def innerOperand? (key inner : Text) : Option Text :=
  match key.isPrefixOf? (inner.dropWhile fun c => c == '!' || c == '-') with
  | some (':' :: '!' :: '=' :: rest) => some rest
  | some (':' :: '=' :: rest) => some rest
  | some (':' :: rest) => some rest
  | _ => none

theorem operand?_eq (key w : Text) : operand? key w = innerOperand? key (unbracketed w) := rfl

/-- A word that is matched: negations, the key, a sign, and the value with or without quotes. -/
theorem exists_operand (h : isFilter key value w = true) : ∃ sign rest : Text,
    sign ∈ [[':'], [':', '='], [':', '!', '=']] ∧
      (unbracketed w).dropWhile (fun c => c == '!' || c == '-') = key ++ (sign ++ rest) ∧
      (rest = value ∨ Quoting.unquote rest = value) := by
  rw [isFilter, Option.any_eq_true] at h
  obtain ⟨rest, operand, same⟩ := h
  rw [operand?_eq, innerOperand?] at operand
  have value : rest = value ∨ Quoting.unquote rest = value := by simpa using same
  split at operand
  · next found =>
    obtain rfl := Option.some.inj operand
    exact ⟨[':', '!', '='], _, by simp, (List.isPrefixOf?_eq_some_iff_append_eq.mp found).symm, value⟩
  · next found =>
    obtain rfl := Option.some.inj operand
    exact ⟨[':', '='], _, by simp, (List.isPrefixOf?_eq_some_iff_append_eq.mp found).symm, value⟩
  · next found =>
    obtain rfl := Option.some.inj operand
    exact ⟨[':'], _, by simp, (List.isPrefixOf?_eq_some_iff_append_eq.mp found).symm, value⟩
  · contradiction

theorem colon_mem_of_isFilter (h : isFilter key value w = true) : ':' ∈ w := by
  obtain ⟨sign, rest, hsign, split, -⟩ := exists_operand h
  have colon : ':' ∈ key ++ (sign ++ rest) := by
    simp only [List.mem_cons, List.not_mem_nil, or_false] at hsign
    rcases hsign with rfl | rfl | rfl <;> simp
  rw [← split] at colon
  exact mem_of_mem_unbracketed ((List.dropWhile_sublist _).subset colon)

theorem isFilter_of_isConnective (h : isConnective w = true) : isFilter key value w = false := by
  rw [Bool.eq_false_iff]
  exact fun found => (isName_of_isConnective h).not_mem rfl (colon_mem_of_isFilter found)

/-- Whether a word is matched does not depend on the brackets around it. -/
theorem countP_isFilter_congr (h : ws.map unbracketed = ws'.map unbracketed) :
    ws.countP (isFilter key value) = ws'.countP (isFilter key value) := by
  induction ws generalizing ws' with
  | nil => rw [List.map_eq_nil_iff.mp h.symm]
  | cons w ws ih =>
      cases ws' with
      | nil => contradiction
      | cons w' ws' =>
          obtain ⟨same, rest⟩ := List.cons.inj h
          have matched : isFilter key value w = isFilter key value w' := by
            rw [isFilter, isFilter, operand?_eq, operand?_eq, same]
          rw [List.countP_cons, List.countP_cons, ih rest, matched]

/-! ### Closing the gap -/

/-- The neighbours of a gap, without one of the connectives beside it. -/
inductive Closes (before after : List Text) : List Text → List Text → Prop
  | whole : Closes before after before after
  | connectiveBefore {b : List Text} {c : Text} (connective : isConnective c = true)
      (split : before = b ++ [c]) : Closes before after b after
  | connectiveAfter {a : List Text} {c : Text} (connective : isConnective c = true)
      (split : after = c :: a) : Closes before after before a

theorem Closes.subset (h : Closes before after b a) : b ⊆ before ∧ a ⊆ after := by
  cases h with
  | whole => exact ⟨fun _ => id, fun _ => id⟩
  | connectiveBefore _ split => exact ⟨by simp [split], fun _ => id⟩
  | connectiveAfter _ split => exact ⟨fun _ => id, by simp [split]⟩

theorem dropLastConnective_concat (ws : List Text) (c : Text) :
    dropLastConnective (ws ++ [c]) = if isConnective c then ws else ws ++ [c] := by
  rw [dropLastConnective, List.reverse_append, List.reverse_singleton, List.singleton_append,
    dropConnective]
  split <;> simp

theorem closes_dropConnective (before after : List Text) :
    Closes before after before (dropConnective after) := by
  cases after with
  | nil => exact .whole
  | cons c a =>
      rw [dropConnective]
      split
      · next connective => exact .connectiveAfter connective rfl
      · exact .whole

theorem closes_dropLastConnective (before after : List Text) :
    Closes before after (dropLastConnective before) after := by
  rcases List.eq_nil_or_concat' before with rfl | ⟨b, c, rfl⟩
  · exact .whole
  · rw [dropLastConnective_concat]
    split
    · next connective => exact .connectiveBefore connective rfl
    · exact .whole

theorem glueLast_nil (ws : List Text) : glueLast [] ws = ws := by
  rcases List.eq_nil_or_concat' ws with rfl | ⟨b, c, rfl⟩
  · rfl
  · simp [glueLast]

theorem glueLast_concat (brackets : Text) (ws : List Text) (w : Text) :
    glueLast brackets (ws ++ [w]) = ws ++ [w ++ brackets] := by
  simp [glueLast]

theorem takeOut_eq (before : List Text) (word : Text) (after : List Text) :
    takeOut before word after =
      if openings word > closings word then
        before ++ glueFirst (List.replicate (openings word - closings word) '(')
          (dropConnective after)
      else if closings word > openings word || before.getLast?.any isConnective then
        glueLast (List.replicate (closings word - openings word) ')') (dropLastConnective before) ++
          after
      else before ++ dropConnective after := rfl

/-- The words on both sides of a gap, with the brackets that the word leaves open or closes. -/
def closeGap (word : Text) (b a : List Text) : List Text :=
  if openings word > closings word then
    b ++ glueFirst (List.replicate (openings word - closings word) '(') a
  else glueLast (List.replicate (closings word - openings word) ')') b ++ a

/-- The gap of a word is closed, and one connective at most goes with the word. -/
theorem exists_takeOut (before : List Text) (word : Text) (after : List Text) :
    ∃ b a, Closes before after b a ∧ takeOut before word after = closeGap word b a := by
  rw [takeOut_eq]
  by_cases opens : openings word > closings word
  · refine ⟨_, _, closes_dropConnective before after, ?_⟩
    rw [if_pos opens, closeGap, if_pos opens]
  rw [if_neg opens]
  by_cases closes : closings word > openings word || before.getLast?.any isConnective
  · refine ⟨_, _, closes_dropLastConnective before after, ?_⟩
    rw [if_pos closes, closeGap, if_neg opens]
  · refine ⟨_, _, closes_dropConnective before after, ?_⟩
    have even : closings word - openings word = 0 := by
      simp only [gt_iff_lt, Bool.or_eq_true, decide_eq_true_eq, not_or] at closes
      omega
    rw [if_neg closes, closeGap, if_neg opens, even, List.replicate_zero, glueLast_nil]

/-- A word without brackets at its ends goes with the connective that joins it to the words before
it, or else with the one behind it. -/
theorem takeOut_of_even (even : openings word = closings word) (before after : List Text) :
    takeOut before word after =
      if before.getLast?.any isConnective then dropLastConnective before ++ after
      else before ++ dropConnective after := by
  rw [takeOut_eq, if_neg (by omega), even, Nat.sub_self, List.replicate_zero, glueLast_nil]
  simp

end LabelEdit

end LogQuery
