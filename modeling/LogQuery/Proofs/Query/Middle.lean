import LogQuery.Proofs.Query.First
import LogQuery.Proofs.Stream.Rows

/-!
# Operations in the middle of a query

Cutting a list of tokens looks ahead only as far as the next cut. So tokens between a connective
and the end of their stage are a run of their own, whatever the query holds before and behind
them, and one comment in place of another changes no operation but the comment.
-/

namespace LogQuery

namespace Segment

section Behind

variable {cut : Token → Bool} {f : List Token → List (List Token)}

/-- What stands in front of a list of tokens is cut without regard to the list, up to the part
that the list goes on with. -/
theorem exists_cut_behind (keeps : ∀ t us, cut t = false → f (t :: us) = putFirst t (f us))
    (cuts : ∀ t, cut t = true → ∃ front, ∀ us, f (t :: us) = front ++ f us) (ts : List Token) :
    ∃ parts vs, ∀ {xs first more}, f xs = first :: more →
      f (ts ++ xs) = parts ++ (vs ++ first) :: more := by
  induction ts with
  | nil => exact ⟨[], [], fun split => split⟩
  | cons t ts ih =>
      obtain ⟨parts, vs, split⟩ := ih
      cases h : cut t with
      | true =>
          obtain ⟨front, before⟩ := cuts t h
          refine ⟨front ++ parts, vs, fun {xs first more} hxs => ?_⟩
          rw [List.cons_append, before, split hxs, List.append_assoc]
      | false =>
          cases parts with
          | nil =>
              refine ⟨[], t :: vs, fun {xs first more} hxs => ?_⟩
              rw [List.cons_append, keeps t _ h, split hxs]
              rfl
          | cons part parts =>
              refine ⟨(t :: part) :: parts, vs, fun {xs first more} hxs => ?_⟩
              rw [List.cons_append, keeps t _ h, split hxs]
              rfl

/-- A token that is no cut stays between the same tokens as any other. -/
theorem exists_cut_around (keeps : ∀ t us, cut t = false → f (t :: us) = putFirst t (f us))
    (cuts : ∀ t, cut t = true → ∃ front, ∀ us, f (t :: us) = front ++ f us) (ts us : List Token) :
    ∃ parts vs ws more, ∀ k, cut k = false →
      f (ts ++ k :: us) = parts ++ (vs ++ k :: ws) :: more := by
  obtain ⟨parts, vs, split⟩ := exists_cut_behind keeps cuts ts
  obtain ⟨ws, more, behind⟩ : ∃ ws more, ∀ k, putFirst k (f us) = (k :: ws) :: more := by
    cases f us with
    | nil => exact ⟨[], [], fun _ => rfl⟩
    | cons part parts => exact ⟨part, parts, fun _ => rfl⟩
  exact ⟨parts, vs, ws, more, fun k hk => split ((keeps k us hk).trans (behind k))⟩

end Behind

theorem exists_splitAt_cons_cut {cut : Token → Bool} {t : Token} (h : cut t = true) :
    ∃ front, ∀ us, splitAt cut (t :: us) = front ++ splitAt cut us := by
  refine ⟨[[]], fun us => ?_⟩
  rw [splitAt, h]
  rfl

theorem exists_runs_cons_connective {t : Token} (h : t.isConnective = true) :
    ∃ front, ∀ us, runs (t :: us) = front ++ runs us := by
  refine ⟨[[], [t]], fun us => ?_⟩
  rw [runs, h]
  rfl

/-- Tokens without cuts and what a cut divides from them. -/
theorem exists_splitAt_append {cut : Token → Bool} {xs us : List Token} (hne : xs ≠ [])
    (h : ∀ t ∈ xs, cut t = false) (behind : ∀ t ∈ us.head?, cut t = true) :
    ∃ more, splitAt cut (xs ++ us) = xs :: more := by
  cases us with
  | nil => exact ⟨[], by rw [List.append_nil, splitAt_of_none hne h]⟩
  | cons bar us => exact ⟨_, splitAt_append h (behind bar rfl)⟩

end Segment

namespace Query

variable {s : Scope} {op : Operation} {ts xs us : List Token} {expr : Text}

/-! ### A run behind a connective -/

/-- The runs of a query, in order. -/
def allRuns (ts : List Token) : List (List Token) := (Segment.stages ts).flatMap Segment.runs

theorem exists_allRuns_of_first (alone : StandsAlone s op xs)
    (behind : ∀ t ∈ us.head?, t.hasText "|" = true) : ∃ more, allRuns (xs ++ us) = xs :: more := by
  obtain ⟨more, split⟩ := Segment.exists_splitAt_append alone.nonempty
    (fun t ht => hasText_bar_of_isInner (alone.inner t ht)) behind
  refine ⟨more.flatMap Segment.runs, ?_⟩
  change (Segment.splitAt _ _).flatMap _ = _
  rw [split, List.flatMap_cons, Segment.runs_of_none alone.nonempty
    fun t ht => isConnective_of_isInner (alone.inner t ht)]
  rfl

theorem exists_allRuns_of_connective {k : Token} (hk : k.isConnective = true)
    (bar : k.hasText "|" = false) (alone : StandsAlone s op xs)
    (behind : ∀ t ∈ us.head?, t.hasText "|" = true) (ts : List Token) :
    ∃ before more, allRuns (ts ++ k :: xs ++ us) = before ++ xs :: more := by
  have uncut : ∀ t ∈ k :: xs, t.hasText "|" = false := by
    intro t ht
    rcases List.mem_cons.1 ht with rfl | ht
    · exact bar
    · exact hasText_bar_of_isInner (alone.inner t ht)
  obtain ⟨parts, vs, split⟩ := Segment.exists_cut_behind
    (fun _ us h => Segment.splitAt_cons_uncut h us)
    (fun _ h => Segment.exists_splitAt_cons_cut h) ts
  obtain ⟨more, first⟩ := Segment.exists_splitAt_append (by simp) uncut behind
  obtain ⟨rs, ws, runs⟩ := Segment.exists_cut_behind
    (fun _ us h => Segment.runs_cons_free h us)
    (fun _ h => Segment.exists_runs_cons_connective h) vs
  have last : Segment.runs (k :: xs) = [] :: [[k], xs] := by
    have free : ∀ t ∈ xs, t.isConnective = false :=
      fun t ht => isConnective_of_isInner (alone.inner t ht)
    have alone' : Segment.runs xs = [xs] := Segment.runs_of_none alone.nonempty free
    rw [Segment.runs, hk, alone']
    rfl
  refine ⟨parts.flatMap Segment.runs ++ rs ++ [ws, [k]], more.flatMap Segment.runs, ?_⟩
  change (Segment.splitAt _ _).flatMap _ = _
  rw [List.append_assoc, split first, List.flatMap_append, List.flatMap_cons, runs last]
  simp

/-- A run that is read as one operation wherever it stands gives the operation. -/
theorem mem_readRuns {rs more : List (List Token)} (alone : StandsAlone s op xs) (b : Bool) :
    op ∈ (readRuns s b (rs ++ xs :: more)).1 := by
  rw [readRuns_append, readRuns, readRun_inner alone.nonempty alone.inner, alone.read]
  simp

/-- Tokens at the start of a query or behind a connective, up to the end of their stage. -/
theorem mem_operations (alone : StandsAlone s op xs) (tokens : tokenize expr = ts ++ xs ++ us)
    (before : ts = [] ∨ ∃ vs k, ts = vs ++ [k] ∧ k.isConnective = true ∧ k.hasText "|" = false)
    (behind : ∀ t ∈ us.head?, t.hasText "|" = true) :
    op ∈ (read { scope := s } expr).operations := by
  obtain ⟨rs, more, runs⟩ : ∃ rs more, allRuns (tokenize expr) = rs ++ xs :: more := by
    rw [tokens]
    rcases before with rfl | ⟨vs, k, rfl, connective, bar⟩
    · obtain ⟨more, runs⟩ := exists_allRuns_of_first alone behind
      exact ⟨[], more, runs⟩
    · rw [List.append_assoc vs, List.singleton_append]
      exact exists_allRuns_of_connective connective bar alone behind vs
  rw [operations_read]
  change op ∈ (readRuns s false (allRuns (tokenize expr))).1
  rw [runs]
  exact mem_readRuns alone false

/-! ### One comment for another -/

/-- The operations that are no comments. -/
def withoutComments (ops : List Operation) : List Operation :=
  ops.filter fun op => op.id != .comment

theorem withoutComments_append (ops more : List Operation) :
    withoutComments (ops ++ more) = withoutComments ops ++ withoutComments more :=
  List.filter_append ops more

/-- A run that does not start with a connective, and the comments behind it. -/
theorem withoutComments_readRun {ts : List Token} (free : ∀ t ∈ ts.head?, connective? t = none)
    (hne : ts ≠ []) (s : Scope) (b : Bool) :
    withoutComments (readRun s b ts).1 =
        withoutComments (readSegment s b (ts.filter fun t => !t.isComment)) ∧
      (readRun s b ts).2 = false := by
  cases ts with
  | nil => contradiction
  | cons t ts =>
      have comments (cs : List Text) : withoutComments
          (cs.map fun c => ({ id := .comment, params := [.text c] } : Operation)) = [] := by
        rw [withoutComments, List.filter_eq_nil_iff]
        intro op hop
        obtain ⟨c, -, rfl⟩ := List.mem_map.1 hop
        simp
      rw [readRun, free t rfl, withoutComments_append, comments, List.append_nil]
      exact ⟨rfl, rfl⟩

/-- A run with one comment for another gives the same operations but for comments, and hands the
same on to the next run. -/
theorem readRun_comment (s : Scope) (b : Bool) (c d : Text) (ts us : List Token) :
    withoutComments (readRun s b (ts ++ .comment c :: us)).1 =
        withoutComments (readRun s b (ts ++ .comment d :: us)).1 ∧
      (readRun s b (ts ++ .comment c :: us)).2 = (readRun s b (ts ++ .comment d :: us)).2 := by
  have kept (c : Text) : (ts ++ .comment c :: us).filter (fun t => !t.isComment) =
      (ts ++ us).filter fun t => !t.isComment := by
    simp [List.filter_append, Token.isComment]
  by_cases free : ∀ t ∈ ts.head?, connective? t = none
  · have free' (c : Text) : ∀ t ∈ (ts ++ .comment c :: us).head?, connective? t = none := by
      cases ts with
      | nil => simp [connective?, Token.word?]
      | cons t ts => exact free
    obtain ⟨hc, hc'⟩ := withoutComments_readRun (free' c) (by simp) s b
    obtain ⟨hd, hd'⟩ := withoutComments_readRun (free' d) (by simp) s b
    rw [hc, hd, hc', hd', kept, kept]
    exact ⟨rfl, rfl⟩
  · -- a run that starts with a connective is read as the connective alone
    cases ts with
    | nil => simp at free
    | cons t ts =>
        obtain ⟨id, connective⟩ : ∃ id, connective? t = some id := by
          simpa [Option.ne_none_iff_exists'] using free
        rw [List.cons_append, List.cons_append, readRun, readRun, connective]
        exact ⟨rfl, rfl⟩

/-- A comment stays in a run with the same tokens, whatever its text. -/
theorem exists_allRuns_comment (ts us : List Token) :
    ∃ rs vs ws more, ∀ {c : Text}, c ≠ ['|'] →
      allRuns (ts ++ .comment c :: us) = rs ++ (vs ++ .comment c :: ws) :: more := by
  let bar (t : Token) : Bool := t.hasText "|"
  obtain ⟨parts, vs, ws, more, split⟩ := Segment.exists_cut_around
    (fun t us (h : bar t = false) => Segment.splitAt_cons_uncut h us)
    (fun _ h => Segment.exists_splitAt_cons_cut h) ts us
  obtain ⟨rs, vs', ws', more', runs⟩ := Segment.exists_cut_around
    (fun _ us h => Segment.runs_cons_free h us)
    (fun _ h => Segment.exists_runs_cons_connective h) vs ws
  refine ⟨parts.flatMap Segment.runs ++ rs, vs', ws', more' ++ more.flatMap Segment.runs, ?_⟩
  intro c hc
  have uncut : bar (.comment c) = false := by simpa [bar, Token.hasText, Token.text?]
  change (Segment.splitAt bar _).flatMap _ = _
  rw [split _ uncut, List.flatMap_append, List.flatMap_cons, runs _ rfl]
  simp

/-- One comment for another in a query changes no operations but comments. -/
theorem withoutComments_read {expr expr' c d : Text} (hc : c ≠ ['|']) (hd : d ≠ ['|'])
    (tokens : tokenize expr = ts ++ .comment c :: us)
    (tokens' : tokenize expr' = ts ++ .comment d :: us) :
    withoutComments (read { scope := s } expr).operations =
      withoutComments (read { scope := s } expr').operations := by
  obtain ⟨rs, vs, ws, more, all⟩ := exists_allRuns_comment ts us
  obtain ⟨same, next⟩ := readRun_comment s (readRuns s false rs).2 c d vs ws
  rw [operations_read, operations_read]
  change withoutComments (readRuns s false (allRuns (tokenize expr))).1 =
    withoutComments (readRuns s false (allRuns (tokenize expr'))).1
  rw [tokens, tokens', all hc, all hd, readRuns_append s false rs, readRuns_append s false rs]
  simp only [readRuns, withoutComments_append, same, next]

end Query

end LogQuery
