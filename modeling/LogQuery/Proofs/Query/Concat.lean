import LogQuery.Proofs.Token.Stage
import LogQuery.Query.Reader

/-!
# Queries joined by a pipe

The stages of a query are read one after the other. All that a stage hands on to the next is
whether it ended in a connective, so two queries joined by a pipe are read as the operations of
the first and then those of the second, unless the first leaves a quote or a bracket open, ends
in a connective, or ends in a pipe of its own.
-/

namespace LogQuery

namespace Segment

variable {cut : Token → Bool} {ts us : List Token} {k : Token}

theorem splitAt_ne_nil (h : ts ≠ []) : splitAt cut ts ≠ [] := by
  cases ts with
  | nil => contradiction
  | cons t ts =>
      rw [splitAt]
      split
      · simp
      · split <;> simp

/-- Behind a token that is no cut, a cut parts the list around it. -/
theorem splitAt_concat_append (hk : cut k = false) {bar : Token} (hbar : cut bar = true) :
    splitAt cut (ts ++ k :: bar :: us) = splitAt cut (ts ++ [k]) ++ splitAt cut us := by
  induction ts with
  | nil => simp [splitAt, hk, hbar]
  | cons t ts ih =>
      rw [List.cons_append, splitAt, ih, List.cons_append, splitAt]
      split
      · rfl
      · cases parts : splitAt cut (ts ++ [k]) with
        | nil => exact absurd parts (splitAt_ne_nil (by simp))
        | cons part parts => rfl

/-- The last part ends as the list does. -/
theorem exists_splitAt_concat (hk : cut k = false) (ts : List Token) :
    ∃ parts us, splitAt cut (ts ++ [k]) = parts ++ [us ++ [k]] := by
  induction ts with
  | nil => exact ⟨[], [], by simp [splitAt, hk]⟩
  | cons t ts ih =>
      obtain ⟨parts, us, split⟩ := ih
      rw [List.cons_append, splitAt, split]
      split
      · exact ⟨[] :: parts, us, rfl⟩
      · cases parts with
        | nil => exact ⟨[], t :: us, rfl⟩
        | cons part parts => exact ⟨(t :: part) :: parts, us, rfl⟩

/-- The last run of a list that ends in no connective does not start with one. -/
theorem exists_runs_concat (hk : k.isConnective = false) (ts : List Token) :
    ∃ rs first r, runs (ts ++ [k]) = rs ++ [first :: r] ∧ first.isConnective = false := by
  induction ts with
  | nil => exact ⟨[], k, [], by simp [runs, hk], hk⟩
  | cons t ts ih =>
      obtain ⟨rs, first, r, split, free⟩ := ih
      rw [List.cons_append, runs, split]
      split
      · exact ⟨[] :: [t] :: rs, first, r, rfl, free⟩
      · next connective =>
        cases rs with
        | nil => exact ⟨[], t, first :: r, rfl, by simpa using connective⟩
        | cons run rs => exact ⟨(t :: run) :: rs, first, r, rfl, free⟩

end Segment

namespace Query

variable {s : Scope} {ts : List Token} {k : Token}

theorem readRuns_append (s : Scope) (b : Bool) (rs qs : List (List Token)) :
    readRuns s b (rs ++ qs) = ((readRuns s b rs).1 ++ (readRuns s (readRuns s b rs).2 qs).1,
      (readRuns s (readRuns s b rs).2 qs).2) := by
  induction rs generalizing b with
  | nil => rfl
  | cons r rs ih => simp only [List.cons_append, readRuns, ih, List.append_assoc]

/-- With no labels to lift, all stages are read alike. -/
theorem operations_read (s : Scope) (expr : Text) :
    (read { scope := s } expr).operations =
      (readRuns s false ((Segment.stages (tokenize expr)).flatMap Segment.runs)).1 := by
  rw [read]
  cases Segment.stages (tokenize expr) with
  | nil => rfl
  | cons first rest =>
      rw [List.flatMap_cons, readRuns_append]
      rfl

/-- Stages that end in no connective have nothing to hand on. -/
theorem readRuns_stages_concat (bar : k.hasText "|" = false) (hk : k.isConnective = false)
    (b : Bool) :
    (readRuns s b ((Segment.stages (ts ++ [k])).flatMap Segment.runs)).2 = false := by
  obtain ⟨parts, us, stages⟩ : ∃ parts us, Segment.stages (ts ++ [k]) = parts ++ [us ++ [k]] :=
    Segment.exists_splitAt_concat bar ts
  obtain ⟨rs, first, r, runs, free⟩ := Segment.exists_runs_concat hk us
  have last : (Segment.stages (ts ++ [k])).flatMap Segment.runs =
      parts.flatMap Segment.runs ++ rs ++ [first :: r] := by
    rw [stages]
    simp [runs]
  rw [last, readRuns_append]
  simp [readRuns, readRun, connective?_eq_none free]

/-- The tokens of two queries, joined by a pipe. -/
theorem readRuns_stages_append (s : Scope) (us : List Token)
    (h : ∀ k ∈ ts.getLast?, k.isConnective = false ∧ k.hasText "|" = false) :
    (readRuns s false ((Segment.stages (ts ++ .word ['|'] :: us)).flatMap Segment.runs)).1 =
      (readRuns s false ((Segment.stages ts).flatMap Segment.runs)).1 ++
        (readRuns s false ((Segment.stages us).flatMap Segment.runs)).1 := by
  rcases ts.eq_nil_or_concat' with rfl | ⟨ts, k, rfl⟩
  · rfl
  · obtain ⟨free, bar⟩ := h k (by simp)
    have split : Segment.stages (ts ++ [k] ++ .word ['|'] :: us) =
        Segment.stages (ts ++ [k]) ++ Segment.stages us := by
      rw [List.append_assoc]
      exact Segment.splitAt_concat_append bar rfl
    rw [split, List.flatMap_append, readRuns_append, readRuns_stages_concat bar free]

end Query

open Lexer (IsRaw) in
/-- A query whose stages are closed, followed by a pipe and another query, is read as the
operations of the one and of the other. -/
theorem operations_read_bar (s : Scope) {t u : Text} (raw : IsRaw t) (trimmed : u.Trimmed)
    (quote : Lexer.openQuote? t = none) (bracket : Lexer.endsInBracket t = false)
    (last : ∀ k ∈ (tokenize t).getLast?, k.isConnective = false ∧ k.hasText "|" = false) :
    (Query.read { scope := s } (t ++ " | " ++ u)).operations =
      (Query.read { scope := s } t).operations ++ (Query.read { scope := s } u).operations := by
  have plain : Lexer.endMode (t ++ [' ']) = .plain := by
    rw [Lexer.endMode_concat, Lexer.endMode_eq_plain raw quote bracket]
    rfl
  have gap : ∀ d ∈ (' ' :: u).takeWhile Text.isBlank, Lexer.isBreak d = true := by
    intro d hd
    have start : u.takeWhile Text.isBlank = [] := by
      cases u with
      | nil => rfl
      | cons c cs => exact List.takeWhile_cons_of_neg (by simp [trimmed.first c rfl])
    rw [List.takeWhile_cons_of_pos (by decide), start, List.mem_singleton] at hd
    rw [hd]
    rfl
  have tokens : tokenize (t ++ " | " ++ u) = tokenize t ++ .word ['|'] :: tokenize u := by
    have joined : tokenize (t ++ [' '] ++ '|' :: ' ' :: u) =
        tokenize (t ++ [' ']) ++ .word ['|'] :: tokenize (' ' :: u) :=
      tokenize_separator (by simp) plain gap
    have before : tokenize (t ++ [' ']) = tokenize t := by
      rw [← tokenize_trim, Text.trim_concat_blank t (by decide), tokenize_trim]
    have behind : tokenize (' ' :: u) = tokenize u := by
      rw [← tokenize_trim, ← tokenize_trim u]
      rfl
    rw [← before, ← behind, ← joined]
    simp
  rw [Query.operations_read, Query.operations_read, Query.operations_read, tokens,
    Query.readRuns_stages_append s _ last]

/-- A quoted pipe, a bracket closed by one of another kind, and a pipe of its own. -/
theorem operations_read_bar_pipe_inside :
    let t : Text := "a or 'b|c' (d] | sort by (e)"
    let u : Text := "limit 3"
    (Lexer.IsRaw t ∧ u.Trimmed ∧ Lexer.openQuote? t = none ∧ Lexer.endsInBracket t = false ∧
      ∀ k ∈ (tokenize t).getLast?, k.isConnective = false ∧ k.hasText "|" = false) ∧
      (Query.read {} (t ++ " | " ++ u)).operations =
        (Query.read {} t).operations ++ (Query.read {} u).operations := by
  intro t u
  have raw : Lexer.IsRaw t := by decide
  have trimmed : u.Trimmed := by decide
  have quote : Lexer.openQuote? t = none := by decide
  have bracket : Lexer.endsInBracket t = false := by decide
  have last : ∀ k ∈ (tokenize t).getLast?, k.isConnective = false ∧ k.hasText "|" = false := by
    decide
  exact ⟨⟨raw, trimmed, quote, bracket, last⟩,
    operations_read_bar {} raw trimmed quote bracket last⟩

end LogQuery
