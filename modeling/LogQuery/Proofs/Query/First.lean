import LogQuery.Proofs.Query.Concat
import LogQuery.Proofs.Query.Stages
import LogQuery.Proofs.Token.Outcome

/-!
# The first operation of a query

Reading adds operations and takes none back. So tokens at the start of a query that are read as
one operation, whatever follows them, make it the first operation of the query.
-/

namespace LogQuery

namespace Segment

/-- The token in front of the first part. -/
def putFirst (t : Token) : List (List Token) → List (List Token)
  | [] => [[t]]
  | part :: parts => (t :: part) :: parts

section Front

variable {cut : Token → Bool} {f : List Token → List (List Token)} {t : Token} {ts : List Token}

theorem splitAt_cons_uncut (h : cut t = false) (ts : List Token) :
    splitAt cut (t :: ts) = putFirst t (splitAt cut ts) := by
  rw [splitAt, h]
  cases splitAt cut ts <;> rfl

theorem runs_cons_free (h : t.isConnective = false) (ts : List Token) :
    runs (t :: ts) = putFirst t (runs ts) := by
  rw [runs, h]
  cases runs ts <;> rfl

/-- Tokens that are no cuts stay together at the front. -/
theorem exists_cut_append (keeps : ∀ t us, cut t = false → f (t :: us) = putFirst t (f us))
    (hne : ts ≠ []) (h : ∀ t ∈ ts, cut t = false) (us : List Token) :
    ∃ part parts, f (ts ++ us) = (ts ++ part) :: parts := by
  induction ts with
  | nil => contradiction
  | cons t ts ih =>
      have first : f (t :: (ts ++ us)) = putFirst t (f (ts ++ us)) := keeps t _ (h t (by simp))
      cases ts with
      | nil =>
          rw [List.nil_append] at first
          rw [List.singleton_append, first]
          cases f us with
          | nil => exact ⟨[], [], rfl⟩
          | cons part parts => exact ⟨part, parts, rfl⟩
      | cons u ts =>
          obtain ⟨part, parts, split⟩ := ih (by simp) fun v hv => h v (by simp [hv])
          refine ⟨part, parts, ?_⟩
          rw [List.cons_append, first, split]
          rfl

end Front

/-! Cutting loses no token but the cuts. -/

theorem flatten_putFirst (t : Token) (parts : List (List Token)) :
    (putFirst t parts).flatten = t :: parts.flatten := by
  cases parts <;> rfl

theorem flatten_splitAt (cut : Token → Bool) (ts : List Token) :
    (splitAt cut ts).flatten = ts.filter (!cut ·) := by
  induction ts with
  | nil => rfl
  | cons t ts ih =>
      cases h : cut t with
      | true => simp [splitAt, h, ih]
      | false =>
          have kept := List.filter_cons_of_pos (p := (!cut ·)) (l := ts) (by simpa using h)
          rw [splitAt_cons_uncut h, flatten_putFirst, ih, kept]

theorem flatten_runs (ts : List Token) : (runs ts).flatten = ts := by
  induction ts with
  | nil => rfl
  | cons t ts ih =>
      cases h : t.isConnective with
      | true => simp [runs, h, ih]
      | false => rw [runs_cons_free h, flatten_putFirst, ih]

end Segment

namespace Query

open Reader (Ensures)

variable {s : Scope} {op : Operation} {ts : List Token}

/-- A round keeps the operations read so far. -/
theorem prefix_readSegmentRound (s : Scope) (onlyFilters : Bool) (ops : List Operation) :
    (readSegmentRound s onlyFilters ops).Ensures fun next => ops <+: next.state := by
  have longer (more : List Operation) : ops <+: ops ++ more := List.prefix_append ops more
  refine .step fun before => .ite (.pure List.prefix_rfl) (.step fun found => ?_)
  refine .ite (.pure List.prefix_rfl) (.step fun _ => .ite ?_ (.ite ?_ ?_))
  · exact .step fun _ => .pure (longer _)
  · exact .step fun _ => .pure ((longer _).trans (List.prefix_append _ _))
  · exact .pure ((longer _).trans (List.prefix_append _ _))

/-- What the first round reads comes first. -/
theorem head?_readSegment_of_round {onlyFilters : Bool} {us : List Token}
    (first : (readSegmentRound s onlyFilters []).run ts = (.more [op], us)) :
    (readSegment s onlyFilters ts).head? = some op := by
  have keeps : ∀ ops, [op] <+: ops →
      (readSegmentRound s onlyFilters ops).Ensures fun next => [op] <+: next.state :=
    fun ops h => (prefix_readSegmentRound s onlyFilters ops).mono fun _ longer => h.trans longer
  have kept : [op] <+: readSegment s onlyFilters ts := by
    rw [readSegment, Reader.loop, Reader.run_bind, Reader.run_look, Reader.run_rounds_more first]
    exact Ensures.rounds keeps _ List.prefix_rfl us
  obtain ⟨more, whole⟩ := kept
  rw [← whole]
  rfl

/-- A round that reads an operation, not a stats function, and takes some token for it. -/
theorem readSegmentRound_of_taken {onlyFilters : Bool} {rest : List Token}
    (read : (readNext s onlyFilters).run ts = ([op], rest)) (taken : rest.length < ts.length)
    (hop : op.id.category ≠ .stats) :
    (readSegmentRound s onlyFilters []).run ts = (.more [op], rest) := by
  have hne : ts ≠ [] := by
    rintro rfl
    cases taken
  simp [readSegmentRound, read, hne, hop, taken.ne]

theorem head?_readSegment {onlyFilters : Bool} {us : List Token} (hne : ts ≠ [])
    (read : (readNext s onlyFilters).run (ts ++ us) = ([op], us))
    (hop : op.id.category ≠ .stats) :
    (readSegment s onlyFilters (ts ++ us)).head? = some op :=
  head?_readSegment_of_round (readSegmentRound_run hne read hop)

/-- Whatever follows them, the tokens start with an operation of this kind, no stats function, and
some token is taken for it. -/
def StartsWith (s : Scope) (ts : List Token) (P : Operation → Prop) : Prop :=
  ∀ us, ∃ op rest, (readNext s false).run (ts ++ us) = ([op], rest) ∧
    rest.length < (ts ++ us).length ∧ op.id.category ≠ .stats ∧ P op

theorem exists_head?_readRun {P : Operation → Prop} (hne : ts ≠ [])
    (inner : ∀ t ∈ ts, t.isInner = true) (starts : StartsWith s ts P) (us : List Token) :
    ∃ op, (readRun s false (ts ++ us)).1.head? = some op ∧ P op := by
  have kept : (ts ++ us).filter (fun t => !t.isComment) =
      ts ++ us.filter (fun t => !t.isComment) := by
    rw [List.filter_append, List.filter_eq_self.mpr]
    intro t ht
    exact (Bool.and_eq_true_iff.mp (inner t ht)).2
  obtain ⟨op, rest, read, taken, notStats, kind⟩ := starts (us.filter fun t => !t.isComment)
  have first := head?_readSegment_of_round (readSegmentRound_of_taken read taken notStats)
  rw [← kept] at first
  refine ⟨op, ?_, kind⟩
  cases ts with
  | nil => contradiction
  | cons t ts =>
      rw [List.cons_append] at first ⊢
      rw [readRun, connective?_eq_none (isConnective_of_isInner (inner t (by simp)))]
      exact List.mem_head?_append_of_mem_head? first

/-- What the tokens at the start of a query start with comes first in the query. -/
theorem exists_head?_operations_read {P : Operation → Prop} {expr : Text} {us : List Token}
    (tokens : tokenize expr = ts ++ us) (hne : ts ≠ []) (inner : ∀ t ∈ ts, t.isInner = true)
    (starts : StartsWith s ts P) :
    ∃ op, (Query.read { scope := s } expr).operations.head? = some op ∧ P op := by
  obtain ⟨part, parts, stages⟩ : ∃ part parts, Segment.stages (ts ++ us) = (ts ++ part) :: parts :=
    Segment.exists_cut_append (fun _ us h => Segment.splitAt_cons_uncut h us) hne
      (fun t ht => hasText_bar_of_isInner (inner t ht)) us
  obtain ⟨r, rs, runs⟩ : ∃ r rs, Segment.runs (ts ++ part) = (ts ++ r) :: rs :=
    Segment.exists_cut_append (fun _ us h => Segment.runs_cons_free h us) hne
      (fun t ht => isConnective_of_isInner (inner t ht)) part
  obtain ⟨op, first, kind⟩ := exists_head?_readRun hne inner starts r
  refine ⟨op, ?_, kind⟩
  rw [operations_read, tokens, stages, List.flatMap_cons, runs]
  exact List.mem_head?_append_of_mem_head? first

/-- Tokens at the start of a query that are read as one operation, whatever follows them. -/
theorem head?_operations_read {expr : Text} {us : List Token} (tokens : tokenize expr = ts ++ us)
    (hne : ts ≠ []) (inner : ∀ t ∈ ts, t.isInner = true)
    (read : ∀ us, (readNext s false).run (ts ++ us) = ([op], us))
    (hop : op.id.category ≠ .stats) :
    (Query.read { scope := s } expr).operations.head? = some op := by
  have starts : StartsWith s ts (· = op) := by
    intro us
    refine ⟨op, us, read us, ?_, hop, rfl⟩
    have := List.length_pos_iff.mpr hne
    rw [List.length_append]
    omega
  obtain ⟨first, head, rfl⟩ := exists_head?_operations_read tokens hne inner starts
  exact head

end Query

end LogQuery
