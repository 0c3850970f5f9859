import LogQuery.Proofs.Filter.Boolean
import LogQuery.Proofs.Pipe.Pipeline

/-!
# Labels

A label is written as a filter of its own. Whether it is negated is said by a flag of the
filter, by a connective in front of it, or by the operator of the label, and lifting undoes what
writing does one label after the other. So labels in front of bounds on the number of entries are
all lifted again, and nothing else is.
-/

namespace LogQuery

open Lexer (Spells)

/-- A value that a label is compared with: nothing, a name, or a text in quotes. A variable would
stand without them. -/
inductive IsLabelValue : Text → Prop
  | empty : IsLabelValue []
  | name {v : Text} (name : v.IsName) : IsLabelValue v
  | text {v : Text} (quoted : Quoting.mustQuote v = true) (notVariable : v.startsWith "$" = false)
      (lacksMark : Quoting.LacksMark v) : IsLabelValue v

/-- A label that is written as a filter of its own: it is compared with a value, or matched with
a pattern that does not start with the mark for any case. -/
inductive IsLabel : LabelFilter → Prop
  | value {f op v : Text} (hf : IsFieldName f) (hop : op ∈ [("=" : Text), "!="])
      (hv : IsLabelValue v) : IsLabel ⟨f, op, v⟩
  | pattern {f op p : Text} (hf : IsFieldName f) (hop : op ∈ [("=~" : Text), "!~"])
      (lacksMark : Quoting.LacksMark p) (hcase : p.startsWith "(?i)" = false) :
      IsLabel ⟨f, op, p⟩

/-! ### The filter of a label -/

section Filter

variable {s : Scope} {f v : Text}

theorem exact_body_text (hs : s.escape = .all) (hf : IsFieldName f)
    (quoted : Quoting.mustQuote v = true) (notVariable : v.startsWith "$" = false)
    (lacksMark : Quoting.LacksMark v) (negated : Bool) : ∃ body, FilterBody s f
      { id := .exact, params := [.text f, .text v, .flag negated, .flag false] } body := by
  have nonempty : v.isEmpty = false := by simpa using IsQuotable.nonempty_of_mustQuote quoted
  have written : s.quoteOrEmpty v = Quoting.enclose .all v := by
    simp [Scope.quoteOrEmpty, nonempty, Scope.quote, Quoting.quoteWith, quoted, hs]
  exact ⟨_, exact_body_quotes hs hf (.enclose lacksMark) written notVariable negated false⟩

/-- A name stands without quotes unless it is a keyword. -/
theorem exact_body_name (hs : s.escape = .all) (hf : IsFieldName f) (name : v.IsName)
    (negated : Bool) : ∃ body, FilterBody s f
      { id := .exact, params := [.text f, .text v, .flag negated, .flag false] } body := by
  have notVariable : v.startsWith ['$'] = false := name.startsWith_eq (by decide)
  cases bare : Quoting.mustQuote v with
  | true => exact exact_body_text hs hf bare notVariable (lacksMark_of_isName name) negated
  | false =>
      have inner : (Token.word v).isInner = true := by
        have token := isInner_nameToken name
        rwa [nameToken, if_neg (by simp [bare])] at token
      have spells : Spells 63 v [.word v] := .name name
      refine ⟨_, exact_body_of hf spells ?_ (by simpa using inner) (by simp) fun rest _ => ?_⟩
      · simp [define, Filter.Exact.definition, Filter.Exact.write, Operation.text, Operation.flag,
          Param.toText, Param.toFlag, notVariable, afterFilter, equalSign, Scope.quoteOrEmpty,
          name.nonempty, Scope.quote, Quoting.quoteWith, bare, flagClause]
      · have noStar : v.endsWith ['*'] = false := name.endsWith_eq (by decide)
        simp [Filter.Exact.takeStarred, noStar]

theorem IsLabelValue.exists_body (h : IsLabelValue v) (hs : s.escape = .all) (hf : IsFieldName f)
    (negated : Bool) : ∃ body, FilterBody s f
      { id := .exact, params := [.text f, .text v, .flag negated, .flag false] } body := by
  cases h with
  | empty => exact ⟨_, exact_body_quotes hs hf .empty rfl rfl negated false⟩
  | name name => exact exact_body_name hs hf name negated
  | text quoted notVariable lacksMark =>
      exact exact_body_text hs hf quoted notVariable lacksMark negated

end Filter

namespace LabelFilter

variable {s : Scope} {f op v : Text} {l : LabelFilter} {ls : List LabelFilter}

theorem toOperations_value (hop : op ∈ [("=" : Text), "!="]) :
    (⟨f, op, v⟩ : LabelFilter).toOperations =
      [{ id := .exact,
         params := [.text f, .text v, .flag (op == ("!=" : Text)), .flag false] }] := by
  simp only [List.mem_cons, List.not_mem_nil, or_false] at hop
  rcases hop with rfl | rfl <;> rfl

theorem toOperations_pattern (hop : op ∈ [("=~" : Text), "!~"]) :
    (⟨f, op, v⟩ : LabelFilter).toOperations =
      (if op == ("!~" : Text) then [.marker .not] else []) ++
        [{ id := .regexp, params := [.text f, .text v, .flag false] }] := by
  simp only [List.mem_cons, List.not_mem_nil, or_false] at hop
  rcases hop with rfl | rfl <;> rfl

/-- Each operation of a label is a clause. -/
theorem exists_clause (h : IsLabel l) (hs : s.escape = .all) :
    ∀ op ∈ l.toOperations, ∃ ts, Clause s op ts := by
  intro op hmem
  cases h with
  | value hf hop hv =>
      rw [toOperations_value hop, List.mem_singleton] at hmem
      subst hmem
      obtain ⟨body, filter⟩ := hv.exists_body hs hf _
      exact ⟨_, .filter (filter.toForm hs hf)⟩
  | pattern hf hop lacksMark hcase =>
      rw [toOperations_pattern hop, List.mem_append, List.mem_singleton] at hmem
      rcases hmem with hmem | rfl
      · split at hmem
        · rw [List.mem_singleton.mp hmem]
          exact ⟨_, .connective rfl⟩
        · contradiction
      · exact ⟨_, .filter ((regexp_body hs hf lacksMark hcase).toForm hs hf)⟩

/-! ### Lifting -/

theorem isLabelLike_toOperations (h : IsLabel l) :
    ∀ op ∈ l.toOperations, Query.isLabelLike op = true := by
  cases h with
  | value hf hop hv =>
      rw [toOperations_value hop]
      simp [Query.isLabelLike, Operation.flag, Param.toFlag]
  | pattern hf hop lacksMark hcase =>
      rw [toOperations_pattern hop]
      split <;> simp [Query.isLabelLike, Operation.flag, Param.toFlag, Operation.marker]

/-- A label is lifted from its operations, and no negation is left pending. -/
theorem labelsOf_toOperations (h : IsLabel l) (ops : List Operation) :
    Query.labelsOf false (l.toOperations ++ ops) = l :: Query.labelsOf false ops := by
  cases h with
  | value hf hop hv =>
      rw [toOperations_value hop]
      simp only [List.mem_cons, List.not_mem_nil, or_false] at hop
      rcases hop with rfl | rfl <;> rfl
  | pattern hf hop lacksMark hcase =>
      rw [toOperations_pattern hop]
      simp only [List.mem_cons, List.not_mem_nil, or_false] at hop
      rcases hop with rfl | rfl <;> rfl

theorem labelsOf_flatMap (h : ∀ l ∈ ls, IsLabel l) :
    Query.labelsOf false (ls.flatMap toOperations) = ls := by
  induction ls with
  | nil => rfl
  | cons l ls ih =>
      rw [List.flatMap_cons, labelsOf_toOperations (h l (by simp)), ih fun m hm => h m (by simp [hm])]

theorem flatMap_ne_nil (h : ∀ l ∈ ls, IsLabel l) (hne : ls ≠ []) :
    ls.flatMap toOperations ≠ [] := by
  intro none
  have lifted := labelsOf_flatMap h
  rw [none] at lifted
  exact hne lifted.symm

theorem liftLabels_flatMap (h : ∀ l ∈ ls, IsLabel l) (hne : ls ≠ []) :
    Query.liftLabels (ls.flatMap toOperations) = (ls, []) := by
  have like : (ls.flatMap toOperations).all Query.isLabelLike = true := by
    rw [List.all_eq_true]
    intro op hop
    obtain ⟨l, hl, hop⟩ := List.mem_flatMap.mp hop
    exact isLabelLike_toOperations (h l hl) op hop
  rw [Query.liftLabels, if_pos (by simp [like, flatMap_ne_nil h hne]), labelsOf_flatMap h]

/-- A label ends in its filter. -/
theorem endsInConnective_flatMap (h : ∀ l ∈ ls, IsLabel l) :
    Query.endsInConnective false (ls.flatMap toOperations) = false := by
  induction ls with
  | nil => rfl
  | cons l ls ih =>
      have one : Query.endsInConnective false l.toOperations = false := by
        cases h l (by simp) with
        | value hf hop hv =>
            rw [toOperations_value hop]
            rfl
        | pattern hf hop lacksMark hcase =>
            rw [toOperations_pattern hop, Query.endsInConnective_append]
            rfl
      rw [List.flatMap_cons, Query.endsInConnective_append, one]
      exact ih fun m hm => h m (by simp [hm])

end LabelFilter

/-! ### Bounds -/

/-- A bound on the entries: how many there are at most, or how many are left out first. -/
inductive IsBound : Operation → Prop
  | mk {id : OperationId} (hid : id ∈ [OperationId.limit, .offset]) {d : Decimal} {n : Nat}
      (hd : d.IsNatural n) : IsBound { id, params := [.number d] }

/-- A pipe with its tokens, which it is also written as where nothing stands before it. -/
structure AlonePair (s : Scope) (op : Operation) (read : Operation × List Token) : Prop where
  pipe : Query.PipePair s op read
  alone : Spells 63 ((define s op.id).write op []) read.2

theorem IsBound.exists_form {s : Scope} {op : Operation} (h : IsBound op) :
    ∃ b, AlonePair s op b ∧ op.sameValue b.1 = true := by
  cases h with
  | @mk id hid d n hd =>
      have counts : id ∈ [OperationId.limit, .offset, .sample] := by
        revert id
        decide
      refine ⟨⟨_, _⟩, ⟨count_form counts hd, ?_⟩, ?_⟩
      · rw [count_written counts hd]
        exact (Trail.number n).spells (.name (Text.isName_keyword id))
      · simp [Operation.sameValue, Operation.sameParams, Param.int, Param.sameValue, hd.same]

namespace Writer

variable {w : Writer} {ps : List Operation} {bs : List (Operation × List Token)}

/-- Pipes alone are written without a bar before the first one. -/
theorem spells_pipes_alone (hw : w.categories = Category.all) {p : Operation}
    {b : Operation × List Token} (first : AlonePair w.scope p b)
    (rest : List.Forall₂ (AlonePair w.scope) ps bs) :
    Spells 63 ((p :: ps).foldl w.step { out := [] }).out
      (b.2 ++ (bs.map Prod.snd).flatMap (.word ['|'] :: ·)) := by
  have category : (define w.scope p.id).id.category = .pipes := by
    rw [define_id, first.pipe.category]
  have start : Spells 63 (w.step { out := [] } p).out b.2 := by
    rw [step_enabled hw first.pipe.enabled, append_pipe category (.of_all (by simp))]
    exact first.alone
  exact spells_foldl_pipes hw (rest.imp fun _ _ h => h.pipe) start

/-- Labels, and pipes behind a bar. -/
theorem spells_write (hw : w.categories = Category.all) {q : Query} {uss : List (List Token)}
    (labels : List.Forall₂ (Clause w.scope) (q.labels.flatMap LabelFilter.toOperations) uss)
    (hne : q.labels.flatMap LabelFilter.toOperations ≠ [])
    (pipes : List.Forall₂ (AlonePair w.scope) q.operations bs) :
    Spells 63 (w.write q) (uss.flatten ++ (bs.map Prod.snd).flatMap (.word ['|'] :: ·)) := by
  have spells := spells_clauses hw labels hne
  have written : w.writeLabels q.labels =
      ((q.labels.flatMap LabelFilter.toOperations).foldl w.step { out := [] }).out :=
    spells.tight.trim_eq
  rw [← written] at spells
  have labelled : (w.writeLabels q.labels).isEmpty = false := by
    simpa using spells.tight.nonempty
  obtain ⟨ls, ps, filters, stages, expr⟩ := q
  rw [write]
  cases pipes with
  | nil =>
      have nothing : w.writeOperations [] = [] := rfl
      simpa [labelled, nothing] using spells
  | @cons p b ps bs first rest =>
      have bound := spells_pipes_alone hw first rest
      have piped : w.writeOperations (p :: ps) = ((p :: ps).foldl w.step { out := [] }).out :=
        bound.tight.trim_eq
      rw [← piped] at bound
      have nonempty : (w.writeOperations (p :: ps)).isEmpty = false := by
        simpa using bound.tight.nonempty
      have joint : w.labelJoint ((p :: ps).find? fun op => !op.disabled) = " | " := by
        simp [labelJoint, first.pipe.enabled, definition?_eq hw, define_id, first.pipe.category]
      simp only [labelled, nonempty, joint]
      simpa using spells.spaced (c := '|') (by simp) bound

end Writer

/-! ### The round trip -/

/-- Labels in front of bounds are lifted again from the query that they are written as. They come
back as they were, and the bounds with the same numbers. -/
theorem read_write_labels (q : Query) (hne : q.labels ≠ []) (labels : ∀ l ∈ q.labels, IsLabel l)
    (bounds : ∀ op ∈ q.operations, IsBound op) :
    let back := Query.read { labels := true } (({} : Writer).write q)
    back.labels = q.labels ∧ Operation.sameList q.operations back.operations = true := by
  intro back
  obtain ⟨uss, clauses⟩ :
      ∃ uss, List.Forall₂ (Clause {}) (q.labels.flatMap LabelFilter.toOperations) uss := by
    refine exists_forall₂ fun op hop => ?_
    obtain ⟨l, hl, hop⟩ := List.mem_flatMap.mp hop
    exact LabelFilter.exists_clause (labels l hl) rfl op hop
  obtain ⟨bs, pipes, same⟩ : ∃ bs, List.Forall₂ (AlonePair {}) q.operations bs ∧
      Operation.sameList q.operations (bs.map Prod.fst) = true :=
    exists_forall₂_sameList fun op hop => (bounds op hop).exists_form
  have nonempty := LabelFilter.flatMap_ne_nil labels hne
  have spells := Writer.spells_write (w := {}) rfl clauses nonempty pipes
  have reads := Query.readRuns_clauses .nil clauses false
  rw [List.flatten_nil, List.nil_append, List.nil_append,
    LabelFilter.endsInConnective_flatMap labels] at reads
  have read : back = _ := Query.read_of_tokens { labels := true }
    (Query.flatten_ne_nil clauses nonempty) (Query.bars_clauses clauses) reads
    (pipes.imp fun _ _ h => h.pipe) (tokenize_of_spells spells)
  rw [if_pos rfl, LabelFilter.liftLabels_flatMap labels hne, List.nil_append] at read
  rw [read]
  exact ⟨rfl, same⟩

/-- A label of each operator, with a keyword as a name and as a value, a label of the default
field, and bounds past the range of a word and with a zero behind the point. -/
theorem read_write_labels_each :
    let q : Query :=
      { labels := [⟨"k8s.pod", "!~", "a\\|b\x60"⟩, ⟨"limit", "=", "and"⟩, ⟨"_msg", "!=", "*"⟩,
          ⟨"app", "=~", []⟩, ⟨"host", "=", "web_1"⟩, ⟨"env", "!=", []⟩]
        operations := [{ id := .offset, params := [.int (2 ^ 96 - 1)] },
          { id := .limit, params := [.number ⟨false, 50, 1⟩] }] }
    (q.labels ≠ [] ∧ (∀ l ∈ q.labels, IsLabel l) ∧ ∀ op ∈ q.operations, IsBound op) ∧
      let back := Query.read { labels := true } (({} : Writer).write q)
      back.labels = q.labels ∧ Operation.sameList q.operations back.operations = true := by
  intro q
  have labels : ∀ l ∈ q.labels, IsLabel l := by
    intro l hl
    simp only [q, List.mem_cons, List.not_mem_nil, or_false] at hl
    rcases hl with rfl | rfl | rfl | rfl | rfl | rfl
    · exact .pattern (by decide) (by decide) ⟨.double, by decide⟩ (by decide)
    · exact .value (by decide) (by decide) (.name (by decide))
    · exact .value (by decide) (by decide)
        (.text (by decide) (by decide) ⟨.backtick, by decide⟩)
    · exact .pattern (by decide) (by decide) ⟨.backtick, by decide⟩ (by decide)
    · exact .value (by decide) (by decide) (.name (by decide))
    · exact .value (by decide) (by decide) .empty
  have bounds : ∀ op ∈ q.operations, IsBound op := by
    intro op hop
    simp only [q, List.mem_cons, List.not_mem_nil, or_false] at hop
    rcases hop with rfl | rfl
    · exact .mk (by decide) (n := 2 ^ 96 - 1) ⟨by decide, by decide⟩
    · exact .mk (by decide) (n := 5) ⟨by decide, by decide⟩
  exact ⟨⟨by simp [q], labels, bounds⟩, read_write_labels q (by simp [q]) labels bounds⟩

end LogQuery
