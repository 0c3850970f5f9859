import LogQuery.Proofs.Edit.Removal

/-!
# Connectives around a gap

In a head of operands with single operators between, a filter goes together with the connective in
front of it, or else with the one behind it. A negation in front of the filter counts as that
connective, so the operator that joins the negated filter to its neighbours stays, and there is
nothing left for it to join.
-/

namespace LogQuery

open FilterTree (isOperator)

namespace LabelEdit

variable {P : Text → Prop} {key value q n w word c : Text} {before after ws x a b : List Text}

/-! ### Sequences of operands -/

/-- A filter, perhaps with a negation in front. -/
inductive IsOperand (P : Text → Prop) : List Text → Prop
  | plain {w : Text} (hw : P w) : IsOperand P [w]
  | negated {n w : Text} (hn : n.sameFold "not" = true) (hw : P w) : IsOperand P [n, w]

/-- Operands with single operators between. -/
inductive IsSequence (P : Text → Prop) : List Text → Prop
  | last {x : List Text} (operand : IsOperand P x) : IsSequence P x
  | cons {x ws : List Text} {c : Text} (operand : IsOperand P x) (operator : isOperator c = true)
      (rest : IsSequence P ws) : IsSequence P (x ++ c :: ws)

/-- What stands in front of an operand: nothing, or a sequence and an operator. -/
inductive LeadsIn (P : Text → Prop) : List Text → Prop
  | nothing : LeadsIn P []
  | joined {ws : List Text} {c : Text} (sequence : IsSequence P ws) (operator : isOperator c = true) :
      LeadsIn P (ws ++ [c])

/-- What stands behind an operand: nothing, or an operator and a sequence. -/
inductive LeadsOn (P : Text → Prop) : List Text → Prop
  | nothing : LeadsOn P []
  | joined {ws : List Text} {c : Text} (operator : isOperator c = true) (sequence : IsSequence P ws) :
      LeadsOn P (c :: ws)

theorem isConnective_of_isOperator (h : isOperator c = true) : isConnective c = true := by
  rw [isConnective, Bool.or_eq_true]
  exact .inl h

theorem isConnective_of_not (h : n.sameFold "not" = true) : isConnective n = true := by
  rw [isConnective, Bool.or_eq_true]
  exact .inr h

theorem isOperator_of_not (h : n.sameFold "not" = true) : isOperator n = false := by
  rw [Text.sameFold, beq_iff_eq] at h
  rw [isOperator, Text.sameFold, Text.sameFold, h]
  rfl

theorem LeadsIn.isOperator_last (h : LeadsIn P (ws ++ [c])) : isOperator c = true := by
  generalize whole : ws ++ [c] = x at h
  cases h with
  | nothing => simp at whole
  | joined _ operator =>
      obtain ⟨-, last⟩ := List.append_inj' whole rfl
      rwa [List.singleton_inj.mp last]

/-- Filters that a sequence is made of: plain words with a colon. -/
def AreFilters (P : Text → Prop) : Prop := ∀ w, P w → IsPlainWord w ∧ ':' ∈ w

theorem IsOperand.mem (h : IsOperand P x) (hw : w ∈ x) : P w ∨ isConnective w = true := by
  cases h with
  | plain hp => exact .inl (List.mem_singleton.mp hw ▸ hp)
  | negated hn hp =>
      rcases List.mem_cons.mp hw with rfl | hw
      · exact .inr (isConnective_of_not hn)
      · exact .inl (List.mem_singleton.mp hw ▸ hp)

theorem IsSequence.mem (h : IsSequence P ws) (hw : w ∈ ws) : P w ∨ isConnective w = true := by
  induction h with
  | last operand => exact operand.mem hw
  | cons operand operator _ ih =>
      rcases List.mem_append.mp hw with hw | hw
      · exact operand.mem hw
      · rcases List.mem_cons.mp hw with rfl | hw
        · exact .inr (isConnective_of_isOperator operator)
        · exact ih hw

theorem IsSequence.ne_nil (h : IsSequence P ws) : ws ≠ [] := by
  cases h with
  | last operand => cases operand <;> simp
  | cons => simp

theorem IsSequence.append (hx : IsSequence P x) (hc : isOperator c = true) (hws : IsSequence P ws) :
    IsSequence P (x ++ c :: ws) := by
  induction hx with
  | last operand => exact .cons operand hc hws
  | cons operand operator _ ih =>
      rw [List.append_assoc, List.cons_append]
      exact .cons operand operator ih

section Filters

variable (filters : AreFilters P)

include filters

theorem not_isConnective (hw : P w) : isConnective w = false := by
  rw [Bool.eq_false_iff]
  exact fun connective => (isName_of_isConnective connective).not_mem rfl (filters w hw).2

theorem not_isOperator (hw : P w) : isOperator w = false := by
  rw [Bool.eq_false_iff]
  intro operator
  have := not_isConnective filters hw
  rw [isConnective_of_isOperator operator] at this
  contradiction

theorem IsSequence.isPlainWord (h : IsSequence P ws) : ∀ w ∈ ws, IsPlainWord w := by
  intro w hw
  rcases h.mem hw with hp | connective
  · exact (filters w hp).1
  · exact .of_isName (isName_of_isConnective connective)

/-- There is one operator less than there are filters. -/
theorem IsSequence.countP_add_one (h : IsSequence P ws) :
    ws.countP isOperator + 1 = ws.countP (':' ∈ ·) := by
  have noColon {c : Text} (hc : isConnective c = true) : ':' ∉ c :=
    (isName_of_isConnective hc).not_mem rfl
  have operand {x : List Text} (h : IsOperand P x) :
      x.countP isOperator = 0 ∧ x.countP (':' ∈ ·) = 1 := by
    cases h with
    | plain hw => simp [not_isOperator filters hw, (filters _ hw).2]
    | negated hn hw =>
        simp [not_isOperator filters hw, (filters _ hw).2, isOperator_of_not hn,
          noColon (isConnective_of_not hn)]
  induction h with
  | last first => rw [(operand first).1, (operand first).2]
  | @cons x ws c first operator _ ih =>
      have behind := noColon (isConnective_of_isOperator operator)
      rw [List.countP_append, List.countP_append, (operand first).1, (operand first).2,
        List.countP_cons_of_pos operator, List.countP_cons_of_neg (by simpa using behind), ih]
      omega

/-- In front of the filter of an operand stands its negation at most. -/
theorem IsOperand.exists_negation (h : IsOperand P (before ++ word :: after)) (hw : P word) :
    after = [] ∧ (before = [] ∨ ∃ n, before = [n] ∧ n.sameFold "not" = true) := by
  have single {b : List Text} {w : Text} (h : b ++ word :: after = [w]) : b = [] ∧ after = [] := by
    cases b with
    | nil => exact ⟨rfl, (List.cons.inj h).2⟩
    | cons v b => simp at h
  generalize whole : before ++ word :: after = x at h
  cases h with
  | plain _ =>
      obtain ⟨rfl, rfl⟩ := single whole
      exact ⟨rfl, .inl rfl⟩
  | @negated n w hn _ =>
      rcases before with _ | ⟨b, before⟩
      · obtain ⟨rfl, -⟩ := List.cons.inj whole
        have := not_isConnective filters hw
        rw [isConnective_of_not hn] at this
        contradiction
      · obtain ⟨rfl, last⟩ := List.cons.inj whole
        obtain ⟨rfl, rfl⟩ := single last
        exact ⟨rfl, .inr ⟨b, rfl, hn⟩⟩

/-- Around a filter of a sequence there are other operands, and perhaps its negation. -/
theorem IsSequence.exists_around (h : IsSequence P (before ++ word :: after)) (hw : P word) :
    ∃ front negation, before = front ++ negation ∧ LeadsIn P front ∧ LeadsOn P after ∧
      (negation = [] ∨ ∃ n, negation = [n] ∧ n.sameFold "not" = true) := by
  generalize whole : before ++ word :: after = ws at h
  induction h generalizing before with
  | last operand =>
      subst whole
      obtain ⟨rfl, negation⟩ := operand.exists_negation filters hw
      exact ⟨[], before, rfl, .nothing, .nothing, negation⟩
  | @cons x ws c operand operator rest ih =>
      have other : word ≠ c := by
        rintro rfl
        rw [not_isOperator filters hw] at operator
        contradiction
      rcases List.append_eq_append_iff.mp whole with ⟨y, rfl, inside⟩ | ⟨y, rfl, inside⟩
      · cases y with
        | nil => exact absurd (List.cons.inj inside).1 other
        | cons w y =>
            -- the filter stands in the first operand
            obtain ⟨rfl, rfl⟩ := List.cons.inj inside
            obtain ⟨rfl, negation⟩ := operand.exists_negation filters hw
            exact ⟨[], before, rfl, .nothing, .joined operator rest, negation⟩
      · cases y with
        | nil => exact absurd (List.cons.inj inside).1.symm other
        | cons o y =>
            obtain ⟨rfl, split⟩ := List.cons.inj inside
            obtain ⟨front, negation, rfl, leadsIn, leadsOn, short⟩ := ih split.symm
            refine ⟨x ++ c :: front, negation, by simp, ?_, leadsOn, short⟩
            cases leadsIn with
            | nothing => exact .joined (.last operand) operator
            | @joined ws d sequence last =>
                have longer := LeadsIn.joined (.cons operand operator sequence) last
                simpa using longer

end Filters

/-! ### The head without a filter -/

theorem even_of_isPlainWord (h : IsPlainWord word) : openings word = closings word := by
  rw [openings_eq_zero, closings_eq_zero]
  · exact fun closer => h.not_mem (by decide) (List.mem_of_getLast? closer)
  · exact fun opener => h.not_mem (by decide) (List.mem_of_mem_head? opener)

theorem mem_of_mem_takeOut (even : openings word = closings word)
    (h : w ∈ takeOut before word after) : w ∈ before ++ word :: after := by
  obtain ⟨b, a, gap, taken⟩ := exists_takeOut before word after
  rw [taken, closeGap, if_neg (by omega), even, Nat.sub_self, List.replicate_zero, glueLast_nil] at h
  rcases List.mem_append.mp h with hb | ha
  · exact List.mem_append_left _ (gap.subset.1 hb)
  · exact List.mem_append_right _ (List.mem_cons_of_mem _ (gap.subset.2 ha))

/-- A head of plain words is cut and written word by word. -/
theorem words_remove (plain : ∀ w ∈ words (splitHead q).1, IsPlainWord w)
    (split : words (splitHead q).1 = before ++ word :: after)
    (absent : ∀ w ∈ before, isFilter key value w = false) (found : isFilter key value word = true) :
    words (splitHead (remove key value q)).1 =
      shownWords (takeOut before word after) (splitHead q).2 := by
  rw [split] at plain
  have left : ∀ w ∈ takeOut before word after, IsPlainWord w := fun w hw =>
    plain w (mem_of_mem_takeOut (even_of_isPlainWord (plain word (by simp))) hw)
  rw [remove_eq split absent found]
  exact words_splitHead_joinHead (fun w hw => (left w hw).isWord) (spans_join left 0) fun _ => rfl

theorem takeOut_of_negated (even : openings word = closings word) (hn : n.sameFold "not" = true)
    (front after : List Text) : takeOut (front ++ [n]) word after = front ++ after := by
  have connective := isConnective_of_not hn
  rw [takeOut_of_even even, if_pos (by simpa using connective), dropLastConnective_concat,
    if_pos connective]

/-- Without a negation, what joined the filter to its neighbours goes with it. -/
theorem isSequence_takeOut (even : openings word = closings word) (leadsIn : LeadsIn P before)
    (leadsOn : LeadsOn P after) :
    IsSequence P (takeOut before word after) ∨ takeOut before word after = [] := by
  rw [takeOut_of_even even]
  cases leadsIn with
  | nothing =>
      cases leadsOn with
      | nothing => exact .inr rfl
      | joined operator sequence =>
          rw [if_neg (by simp), dropConnective, if_pos (isConnective_of_isOperator operator)]
          exact .inl sequence
  | @joined ws c sequence operator =>
      have connective := isConnective_of_isOperator operator
      rw [if_pos (by simpa using connective), dropLastConnective_concat, if_pos connective]
      cases leadsOn with
      | nothing => exact .inl (by simpa using sequence)
      | joined operator' sequence' => exact .inl (sequence.append operator' sequence')

/-- With the negation gone, the operators around the filter have one operand less to join. -/
theorem isSequence_shownWords_iff (filters : AreFilters P)
    (sequence : IsSequence P (before ++ n :: word :: after)) (hn : n.sameFold "not" = true)
    (hw : P word) (pipes : Text) :
    (IsSequence P (shownWords (before ++ after) pipes) ∨
        shownWords (before ++ after) pipes = shownWords [] pipes) ↔
      before = [] ∧ after = [] := by
  rw [← List.append_eq_nil_iff]
  refine ⟨fun left => by_contra fun some => ?_, fun none => .inr (by rw [none])⟩
  rw [shownWords_of_ne_nil some] at left
  rcases left with still | star
  · have full := sequence.countP_add_one filters
    have rest := still.countP_add_one filters
    have noColon : ':' ∉ n := (isName_of_isConnective (isConnective_of_not hn)).not_mem rfl
    rw [List.countP_append, List.countP_append,
      List.countP_cons_of_neg (by simp [isOperator_of_not hn]),
      List.countP_cons_of_neg (by simp [not_isOperator filters hw]),
      List.countP_cons_of_neg (by simpa using noColon),
      List.countP_cons_of_pos (by simpa using (filters word hw).2)] at full
    rw [List.countP_append, List.countP_append] at rest
    omega
  · have none : ∀ w ∈ ([] : List Text), w = ['*'] := by simp
    have shown := forall_mem_shownWords (p := (· = ['*'])) rfl none pipes
    obtain ⟨w, hw'⟩ := List.exists_mem_of_ne_nil _ some
    obtain rfl := shown w (star ▸ hw')
    have member : ['*'] ∈ before ++ n :: word :: after := by
      rcases List.mem_append.mp hw' with hb | ha
      · exact List.mem_append_left _ hb
      · exact List.mem_append_right _ (by simp [ha])
    rcases sequence.mem member with filter | connective
    · exact absurd (filters _ filter).2 (by decide)
    · contradiction

/-- What is left of a sequence is a sequence, or nothing, exactly if the filter that is taken out has
no negation in front of it, or stands alone with its negation. Nothing is shown as a star in front
of pipes. -/
theorem isSequence_remove_iff (filters : AreFilters P)
    (sequence : IsSequence P (words (splitHead q).1)) :
    (IsSequence P (words (splitHead (remove key value q)).1) ∨
        words (splitHead (remove key value q)).1 = shownWords [] (splitHead q).2) ↔
      ∀ before negation word after,
        cutFirst? (isFilter key value) (words (splitHead q).1) =
          some (before ++ [negation], word, after) →
        negation.sameFold "not" = true → before = [] ∧ after = [] := by
  cases found : has key value q with
  | false =>
      have absent : ∀ w ∈ words (splitHead q).1, isFilter key value w = false := by
        simpa [has] using found
      rw [remove_of_absent found, cutFirst?_eq_none absent]
      refine ⟨fun _ b m w a same => ?_, fun _ => .inl sequence⟩
      contradiction
  | true =>
      obtain ⟨before, word, after, split, matched, absent⟩ := exists_first found
      have plain := sequence.isPlainWord filters
      have filter : P word := by
        refine (sequence.mem (by simp [split])).resolve_right fun connective => ?_
        rw [isFilter_of_isConnective connective] at matched
        contradiction
      rw [words_remove plain split absent matched, split, cutFirst?_append absent matched]
      rw [split] at plain sequence
      have even := even_of_isPlainWord (plain word (by simp))
      obtain ⟨front, negation, rfl, leadsIn, leadsOn, short⟩ :=
        sequence.exists_around filters filter
      rcases short with rfl | ⟨n, rfl, hn⟩
      · rw [List.append_nil]
        refine ⟨fun _ b m w a same negated => ?_, fun _ => ?_⟩
        · -- what stands in front of the filter is an operator
          obtain ⟨rfl, -⟩ := Prod.mk.inj (Option.some.inj same)
          have operator := leadsIn.isOperator_last
          rw [isOperator_of_not negated] at operator
          contradiction
        · rcases isSequence_takeOut even leadsIn leadsOn with still | none
          · exact .inl (by rwa [shownWords_of_ne_nil still.ne_nil])
          · exact .inr (by rw [none])
      · rw [takeOut_of_negated even hn]
        rw [List.append_assoc, List.singleton_append] at sequence
        rw [isSequence_shownWords_iff filters sequence hn filter]
        refine ⟨fun alone b m w a same _ => ?_, fun alone => alone front n word after rfl hn⟩
        obtain ⟨inFront, rest⟩ := Prod.mk.inj (Option.some.inj same)
        obtain ⟨-, behind⟩ := Prod.mk.inj rest
        exact ⟨(List.append_inj' inFront rfl).1 ▸ alone.1, behind ▸ alone.2⟩

/-! ### Fields and values -/

/-- A field and a value of letters and digits, with a colon between. -/
def IsFieldValue (w : Text) : Prop :=
  ∃ field value : Text, w = field ++ ':' :: value ∧ field ≠ [] ∧ value ≠ [] ∧
    ∀ c ∈ field ++ value, c.isAlphanum = true

theorem areFilters_isFieldValue : AreFilters IsFieldValue := by
  rintro w ⟨field, value, rfl, -, -, letters⟩
  have ordinary (c : Char) (hc : c ∈ field ++ value) : isOrdinary c = true :=
    isOrdinary_of_isNameChar (by simp [Text.isNameChar, letters c hc])
  refine ⟨⟨by simp, fun c hc => ?_⟩, by simp⟩
  rcases List.mem_append.mp hc with first | second
  · exact ordinary c (List.mem_append_left _ first)
  · rcases List.mem_cons.mp second with rfl | last
    · simp [isOrdinary, Lexer.isInert, Text.isBlank]
    · exact ordinary c (List.mem_append_right _ last)

/-- Two negated filters stay, and the one between them goes with the operator in front of it. -/
theorem isSequence_remove_between :
    let q : Text := "NOT a:1 OR b:2 and not c:3 | limit 5"
    AreFilters IsFieldValue ∧ IsSequence IsFieldValue (words (splitHead q).1) ∧
      remove "b" "2" q = "NOT a:1 and not c:3 | limit 5" ∧
      (IsSequence IsFieldValue (words (splitHead (remove "b" "2" q)).1) ∨
        words (splitHead (remove "b" "2" q)).1 = shownWords [] (splitHead q).2) := by
  intro q
  have first : IsFieldValue "a:1" := ⟨['a'], ['1'], rfl, by simp, by simp, by simp⟩
  have second : IsFieldValue "b:2" := ⟨['b'], ['2'], rfl, by simp, by simp, by simp⟩
  have third : IsFieldValue "c:3" := ⟨['c'], ['3'], rfl, by simp, by simp, by simp⟩
  have cut : words (splitHead q).1 =
      [("NOT" : Text), "a:1"] ++ ("OR" : Text) :: ([("b:2" : Text)] ++ ("and" : Text) ::
        [("not" : Text), "c:3"]) := by decide
  have sequence : IsSequence IsFieldValue (words (splitHead q).1) := by
    rw [cut]
    exact .cons (.negated (by decide) first) (by decide)
      (.cons (.plain second) (by decide) (.last (.negated (by decide) third)))
  refine ⟨areFilters_isFieldValue, sequence, by decide, ?_⟩
  refine (isSequence_remove_iff areFilters_isFieldValue sequence).mpr ?_
  intro before negation word after found negated
  have here : cutFirst? (isFilter "b" "2") (words (splitHead q).1) =
      some ([("NOT" : Text), "a:1", "OR"], ("b:2" : Text), [("and" : Text), "not", "c:3"]) := by decide
  rw [here] at found
  have last := congrArg List.getLast? (Prod.mk.inj (Option.some.inj found)).1
  obtain rfl : ("OR" : Text) = negation := by simpa using last
  contradiction

/-- The negation goes with its filter, and the operator in front of it has nothing to join. -/
theorem not_isSequence_remove :
    let q : Text := "a:1 AND NOT b:2"
    IsSequence IsFieldValue (words (splitHead q).1) ∧ remove "b" "2" q = "a:1 AND" ∧
      ¬IsSequence IsFieldValue (words (splitHead (remove "b" "2" q)).1) ∧
      words (splitHead (remove "b" "2" q)).1 ≠ [] := by
  intro q
  have first : IsFieldValue "a:1" := ⟨['a'], ['1'], rfl, by simp, by simp, by simp⟩
  have second : IsFieldValue "b:2" := ⟨['b'], ['2'], rfl, by simp, by simp, by simp⟩
  have cut : words (splitHead q).1 =
      [("a:1" : Text)] ++ ("AND" : Text) :: [("NOT" : Text), "b:2"] := by decide
  have removed : remove "b" "2" q = "a:1 AND" := by decide
  refine ⟨?_, removed, fun sequence => ?_, by decide⟩
  · rw [cut]
    exact .cons (.plain first) (by decide) (.last (.negated (by decide) second))
  · have count := sequence.countP_add_one areFilters_isFieldValue
    rw [removed] at count
    exact absurd count (by decide)

end LabelEdit

end LogQuery
