import LogQuery.Proofs.Pipe.Form

/-!
# Pipelines

Pipes that count, order and group, and those that are a keyword alone. Each of them reads its
own clauses back, whichever are left out, so any sequence of them behind a star is read back as
it was written, its numbers by their value.
-/

namespace LogQuery

open Lexer (Spells)
open Reader (Iterates Reads)
open Decimal (natText)

variable {s : Scope} {F P : Text} {d e : Decimal} {n m : Nat}

/-! ### Pipes with a number -/

/-- The pipes that are a keyword and a number. -/
theorem count_written {id : OperationId} (hid : id ∈ [OperationId.limit, .offset, .sample])
    (h : d.IsNatural n) (inner : Text) :
    (define s id).write { id, params := [.number d] } inner =
      afterPipe inner (id.keyword ++ ' ' :: natText n) := by
  have text : ({ id, params := [.number d] } : Operation).text 0 = natText n := by
    simp [Operation.text, Param.toText_number h]
  have written : (define s id).write = Pipe.Count.write := by
    simp only [List.mem_cons, List.not_mem_nil, or_false] at hid
    rcases hid with rfl | rfl | rfl <;> rfl
  rw [written, Pipe.Count.write, text]
  simp

theorem count_form {id : OperationId} (hid : id ∈ [OperationId.limit, .offset, .sample])
    (h : d.IsNatural n) :
    PipeForm s { id, params := [.number d] } { id, params := [.int n] }
      [.word id.keyword, .word (natText n)] := by
  have opens : OpensPipe id := by
    revert id
    decide
  have number := Reader.number?_natText s h.fits
  refine PipeForm.of_clauses rfl opens rfl (.number n) (count_written hid h) ?_
  obtain ⟨default, read⟩ : ∃ default, (define s id).read none = Pipe.Count.read s default := by
    simp only [List.mem_cons, List.not_mem_nil, or_false] at hid
    rcases hid with rfl | rfl | rfl <;> exact ⟨_, rfl⟩
  rw [read]
  simp [Pipe.Count.read, Token.isValue, number, Param.int]

theorem bare_form {id : OperationId}
    (hid : id ∈ [OperationId.fieldNames, .blockStats, .blocksCount, .dropEmptyFields]) :
    PipeForm s (.marker id) (.marker id) [.word id.keyword] := by
  have opens : OpensPipe id := by
    revert id
    decide
  have bare : define s id = Pipe.bare id := by
    simp only [List.mem_cons, List.not_mem_nil, or_false] at hid
    rcases hid with rfl | rfl | rfl | rfl <;> rfl
  refine PipeForm.of_clauses rfl opens rfl .nil ?_ ?_
  · intro inner
    change (define s id).write (.marker id) inner = _
    rw [bare, List.append_nil]
    rfl
  · change ((define s id).read none).run [] = _
    rw [bare]
    rfl

/-! ### Sorting -/

/-- The fields that a pipe goes by. -/
theorem trail_by (h : F.IsContent) : Trail (" by (" ++ F ++ ")") [.word "by", .group F] := by
  simpa using (Trail.word (w := "by") (by decide)).append (.group h.inert)

namespace Pipe.SortBy

/-- The tokens of the clauses behind the fields. -/
def clauseTokens (desc : Bool) (P : Text) (n m : Nat) : List Token :=
  flagTokens "desc" desc ++ (groupTokens "partition" "by" P ++
    (numberTokens "limit" n ++ numberTokens "offset" m))

/-- What the text between the brackets of a partition is taken for. -/
def partitionText (P : Text) : Text := Token.sourceText (Lexer.tokensWithin 63 P)

theorem takeClause_partition (c : Clauses) (P : Text) (ts : List Token) :
    (takeClause c).run (.word "partition" :: .word "by" :: .group P :: ts) =
      (.more { c with partition := partitionText P }, ts) := rfl

theorem takeClause_limit (c : Clauses) (ts : List Token) :
    (takeClause c).run (.word "limit" :: ts) =
      (.more { c with limit := (Reader.takeInt.run ts).1 }, (Reader.takeInt.run ts).2) := rfl

theorem takeClause_offset (c : Clauses) (ts : List Token) :
    (takeClause c).run (.word "offset" :: ts) =
      (.more { c with offset := (Reader.takeInt.run ts).1 }, (Reader.takeInt.run ts).2) := rfl

theorem takeClause_desc (c : Clauses) (ts : List Token) :
    (takeClause c).run (.word "desc" :: ts) = (.more { c with desc := true }, ts) := rfl

/-- The clauses in the order in which they are written. -/
theorem iterates_clauses (hn : n < 2 ^ 63) (hm : m < 2 ^ 63) (desc : Bool) (P : Text) :
    Iterates takeClause {} (clauseTokens desc P n m)
      { desc, limit := .ofInt n, offset := .ofInt m, partition := partitionText P } [] := by
  have order : Reads takeClause {} (flagTokens "desc" desc) { desc }
      (groupTokens "partition" "by" P ++ (numberTokens "limit" n ++ numberTokens "offset" m)) := by
    refine .flag (fun absent => by rw [absent]) fun present => ?_
    rw [present, takeClause_desc]
  have partition : Reads takeClause { desc } (groupTokens "partition" "by" P)
      { desc, partition := partitionText P } (numberTokens "limit" n ++ numberTokens "offset" m) :=
    .group (fun empty => by rw [empty]; rfl) (takeClause_partition ..)
  have limit : Reads takeClause { desc, partition := partitionText P } (numberTokens "limit" n)
      { desc, partition := partitionText P, limit := .ofInt n } (numberTokens "offset" m) := by
    refine .number (fun zero => by rw [zero]; rfl) ?_
    rw [takeClause_limit, Reader.run_takeInt hn]
  have offset : Reads takeClause { desc, partition := partitionText P, limit := .ofInt n }
      (numberTokens "offset" m)
      { desc, partition := partitionText P, limit := .ofInt n, offset := .ofInt m } [] := by
    refine .number (fun zero => by rw [zero]; rfl) ?_
    rw [takeClause_offset, Reader.run_takeInt hm]
  exact order.iterates (partition.iterates (limit.iterates (offset.iterates_last rfl)))

end Pipe.SortBy

/-- The fields are read back as they are written, a partition as the text of its tokens. -/
theorem sort_form (hF : F.IsContent) (desc : Bool) (hd : d.IsWhole n) (he : e.IsWhole m)
    (hP : P.IsContent) :
    PipeForm s
      { id := .sort, params := [.text F, .flag desc, .number d, .number e, .text P] }
      { id := .sort,
        params := [.text F, .flag desc, .int n, .int m, .text (Pipe.SortBy.partitionText P)] }
      (.word "sort" :: .word "by" :: .group F :: Pipe.SortBy.clauseTokens desc P n m) := by
  have limit : Operation.positive?
      { id := .sort, params := [.text F, .flag desc, .number d, .number e, .text P] } 2 =
      wholeText? n := Operation.positive?_eq rfl hd
  have offset : Operation.positive?
      { id := .sort, params := [.text F, .flag desc, .number d, .number e, .text P] } 3 =
      wholeText? m := Operation.positive?_eq rfl he
  have clauses : Trail (" by (" ++ F ++ ")" ++ flagClause " desc" desc ++
      groupClause " partition by" P ++ numberClause " limit " (wholeText? n) ++
      numberClause " offset " (wholeText? m))
      (.word "by" :: .group F :: Pipe.SortBy.clauseTokens desc P n m) := by
    simpa [Pipe.SortBy.clauseTokens] using ((((trail_by hF).append
      (.flagClause (w := "desc") (by decide) desc)).append
      (.groupClause (u := "partition") (w := "by") (by decide) (by decide) hP)).append
      (.numberClause (w := "limit") (by decide) n)).append
      (.numberClause (w := "offset") (by decide) m)
  have opens : OpensPipe .sort := by decide
  refine PipeForm.of_clauses rfl opens rfl clauses ?_ ?_
  · intro inner
    change Pipe.SortBy.write _ inner = _
    rw [Pipe.SortBy.write, limit, offset]
    simp [Operation.text, Operation.flag, Param.toText, Param.toFlag]
  · have iterates := (Pipe.SortBy.iterates_clauses hd.fits he.fits desc P).run_loop
    change Pipe.SortBy.read.run _ = _
    rw [Pipe.SortBy.read, Reader.run_bind, Reader.run_takeByGroup]
    dsimp only
    rw [Reader.run_bind, iterates, Reader.run_pure, body_group hF]
    rfl

/-! ### Unique values -/

namespace Pipe.Uniq

theorem takeClause_with_hits (c : Clauses) (ts : List Token) :
    (takeClause s c).run (.word "with" :: .word "hits" :: ts) =
      (.more { c with hits := true }, ts) := rfl

theorem takeClause_limit (c : Clauses) (ts : List Token) :
    (takeClause s c).run (.word "limit" :: ts) =
      (.more { c with limit := ((Reader.takeNumber s 0).run ts).1 },
        ((Reader.takeNumber s 0).run ts).2) := rfl

/-- The tokens of the hits clause. -/
def hitsTokens (hits : Bool) : List Token := if hits then [.word "with", .word "hits"] else []

theorem rounds_limit (s : Scope) (hn : n < 2 ^ 63) (c : Clauses) (hc : c.limit = .zero) (k : Nat) :
    (Reader.rounds (takeClause s) (k + 1) c).run (numberTokens "limit" n) =
      ({ c with limit := .ofInt n }, []) := by
  unfold numberTokens
  split
  · next zero =>
    rw [zero, Reader.run_rounds_done rfl]
    change (c, _) = ({ c with limit := .zero }, _)
    rw [← hc]
  · have read : (takeClause s c).run [.word "limit", .word (natText n)] =
        (.more { c with limit := .ofInt n }, []) := by
      rw [takeClause_limit, Reader.run_takeNumber s 0 hn]
    rw [Reader.run_rounds_more read, Reader.run_rounds_done rfl]

/-- Two rounds are enough for the two clauses. -/
theorem rounds_clauses (s : Scope) (hn : n < 2 ^ 63) (hits : Bool) :
    (Reader.rounds (takeClause s) 2 {}).run (hitsTokens hits ++ numberTokens "limit" n) =
      ({ hits, limit := .ofInt n }, []) := by
  cases hits with
  | false => exact rounds_limit s hn {} rfl 1
  | true =>
      have read := takeClause_with_hits (s := s) {} (numberTokens "limit" n)
      exact (Reader.run_rounds_more read 1).trans (rounds_limit s hn { hits := true } rfl 0)

end Pipe.Uniq

theorem run_takeBy (h : F.IsContent) (ts : List Token) :
    Reader.takeBy.run (.word "by" :: .group F :: ts) = (F, ts) := by
  rw [Reader.takeBy, Reader.run_bind, Reader.run_takeByGroup]
  dsimp only
  rw [Reader.run_pure, body_group h]

theorem uniq_form (hF : F.IsContent) (hits : Bool) (hd : d.IsWhole n) :
    PipeForm s { id := .uniq, params := [.text F, .flag hits, .number d] }
      { id := .uniq, params := [.text F, .flag hits, .int n] }
      (.word "uniq" :: .word "by" :: .group F ::
        (Pipe.Uniq.hitsTokens hits ++ numberTokens "limit" n)) := by
  have limit : Operation.positive? { id := .uniq, params := [.text F, .flag hits, .number d] } 2 =
      wholeText? n := Operation.positive?_eq rfl hd
  have clauses : Trail (" by (" ++ F ++ ")" ++ flagClause " with hits" hits ++
      numberClause " limit " (wholeText? n))
      (.word "by" :: .group F :: (Pipe.Uniq.hitsTokens hits ++ numberTokens "limit" n)) := by
    have withHits : Trail (flagClause " with hits" hits) (Pipe.Uniq.hitsTokens hits) := by
      cases hits with
      | false => exact .nil
      | true =>
          exact (Trail.word (w := "with") (by decide)).append (.word (w := "hits") (by decide))
    simpa using ((trail_by hF).append withHits).append
      (.numberClause (w := "limit") (by decide) n)
  have opens : OpensPipe .uniq := by decide
  refine PipeForm.of_clauses rfl opens rfl clauses ?_ ?_
  · intro inner
    change Pipe.Uniq.write _ inner = _
    rw [Pipe.Uniq.write, limit]
    simp [Operation.text, Operation.flag, Param.toText, Param.toFlag]
  · have rounds := Pipe.Uniq.rounds_clauses s hd.fits hits
    change (Pipe.Uniq.read s).run _ = _
    rw [Pipe.Uniq.read, Reader.run_bind, run_takeBy hF, Reader.run_bind, rounds]
    rfl

/-! ### First and last entries -/

namespace Pipe.FirstLast

theorem run_eatWord_desc (desc : Bool) (P : Text) :
    (Reader.eatWord "desc").run (flagTokens "desc" desc ++ groupTokens "partition" "by" P) =
      (desc, groupTokens "partition" "by" P) := by
  cases desc with
  | true => rfl
  | false =>
      unfold groupTokens
      split <;> rfl

theorem run_read (hF : F.IsContent) (hP : P.IsContent) (hn : n < 2 ^ 63) (desc : Bool) :
    (read s).run (limitTokens 0 n ++ .word "by" :: .group F ::
      (flagTokens "desc" desc ++ groupTokens "partition" "by" P)) =
      ([.int n, .text F, .flag desc, .text P], []) := by
  have limit : (if n = 0 then none else some (Decimal.ofInt n)).getD .zero = .ofInt n :=
    Reader.getD_limit 0 n
  rw [read, Reader.run_bind, Reader.run_takeNumber?_limit s 0 hn, Reader.run_bind,
    Reader.run_takeByGroup, Reader.run_bind, run_eatWord_desc, limit, Option.map_some,
    Option.getD_some, body_group hF]
  unfold groupTokens
  split
  · next empty => rw [empty]; rfl
  · have partition : (takePartition []).run [.word "by", .group P] = (P, []) := by
      rw [takePartition, Reader.run_bind, Reader.run_takeKeywordGroup rfl, Option.map_some,
        Option.getD_some, body_group hP]
      rfl
    rw [Reader.run_bind]
    dsimp only
    rw [Reader.run_eatWord_of_isKeyword rfl, if_pos rfl, Reader.run_bind, partition]
    rfl

end Pipe.FirstLast

theorem firstLast_form {id : OperationId} (hid : id = .first ∨ id = .last) (hF : F.IsContent)
    (hP : P.IsContent) (desc : Bool) (hd : d.IsWhole n) :
    PipeForm s { id, params := [.number d, .text F, .flag desc, .text P] }
      { id, params := [.int n, .text F, .flag desc, .text P] }
      (.word id.keyword :: (limitTokens 0 n ++
        .word "by" :: .group F :: (flagTokens "desc" desc ++ groupTokens "partition" "by" P))) := by
  have limit : Operation.positive? { id, params := [.number d, .text F, .flag desc, .text P] } 0 =
      wholeText? n := Operation.positive?_eq rfl hd
  have clauses : Trail (numberClause " " (wholeText? n) ++ " by (" ++ F ++ ")" ++
      flagClause " desc" desc ++ groupClause " partition by" P)
      (limitTokens 0 n ++
        .word "by" :: .group F :: (flagTokens "desc" desc ++ groupTokens "partition" "by" P)) := by
    have number : Trail (numberClause " " (wholeText? n))
        (limitTokens 0 n) := by
      unfold wholeText? limitTokens
      split
      · exact .nil
      · exact .number n
    simpa using ((number.append (trail_by hF)).append
      (.flagClause (w := "desc") (by decide) desc)).append
      (.groupClause (u := "partition") (w := "by") (by decide) (by decide) hP)
  have opens : OpensPipe id := by
    rcases hid with rfl | rfl <;> decide
  refine PipeForm.of_clauses rfl opens rfl clauses ?_ ?_
  · intro inner
    have written : (define s id).write = Pipe.FirstLast.write := by
      rcases hid with rfl | rfl <;> rfl
    rw [written, Pipe.FirstLast.write, limit]
    simp [Operation.text, Operation.flag, Param.toText, Param.toFlag]
  · have reads : (define s id).read none = Pipe.FirstLast.read s := by
      rcases hid with rfl | rfl <;> rfl
    rw [reads, Pipe.FirstLast.run_read hF hP hd.fits]

/-! ### Top values -/

namespace Pipe.Top

variable {H R : Text}

/-- The tokens of the hits clause. -/
def hitsTokens (H : Text) : List Token :=
  if H = [] then [] else [.word "hits", .word "as", nameToken H]

/-- The tokens of the rank clause; the usual name is left out. -/
def rankTokens (rank : Bool) (R : Text) : List Token :=
  if rank then .word "rank" :: (if R = rankName then [] else [.word "as", nameToken R]) else []

/-- The tokens of the clauses behind the fields. -/
def clauseTokens (H : Text) (rank : Bool) (R P : Text) : List Token :=
  groupTokens "partition" "by" P ++ (hitsTokens H ++ rankTokens rank R)

theorem takeClause_partition (c : Clauses) (ts : List Token) :
    (takeClause s c).run (.word "partition" :: ts) =
      (.more { c with partition := ((takePartition c.partition).run ts).1 },
        ((takePartition c.partition).run ts).2) := rfl

theorem takeClause_hits (c : Clauses) (ts : List Token) :
    (takeClause s c).run (.word "hits" :: .word "as" :: ts) =
      (.more { c with hits := ((Reader.takeValueD s []).run ts).1 },
        ((Reader.takeValueD s []).run ts).2) := rfl

theorem takeClause_rank (c : Clauses) :
    (takeClause s c).run [.word "rank"] = (.more { c with rank := true }, []) := rfl

theorem takeClause_rank_as (c : Clauses) (ts : List Token) :
    (takeClause s c).run (.word "rank" :: .word "as" :: ts) =
      (.more { c with rank := true, rankField := ((Reader.takeValueD s rankName).run ts).1 },
        ((Reader.takeValueD s rankName).run ts).2) := rfl

theorem run_takeValueD_name (hs : s.escape = .all) (hR : R.IsName) (default : Text)
    (ts : List Token) : (Reader.takeValueD s default).run (nameToken R :: ts) = (R, ts) := by
  rw [Reader.run_takeValueD s default (isValue_nameToken R) (hasText_nameToken hR (by simp)),
    value_nameToken hs hR]

theorem reads_partition (hP : P.IsContent) (rest : List Token) :
    Reads (takeClause s) {} (groupTokens "partition" "by" P) { partition := P } rest := by
  refine .group (fun empty => by rw [empty]) ?_
  rw [takeClause_partition, takePartition, Reader.run_bind, Reader.run_takeKeywordGroup rfl,
    Option.map_some, Option.getD_some, body_group hP]
  rfl

theorem reads_hits (hs : s.escape = .all) (hH : H = [] ∨ H.IsName) (P : Text)
    (rest : List Token) :
    Reads (takeClause s) { partition := P } (hitsTokens H) { hits := H, partition := P } rest := by
  unfold hitsTokens
  split
  · next empty => exact .inl ⟨rfl, by rw [empty]⟩
  · next nonempty =>
    refine .inr ⟨by simp, ?_⟩
    have name := hH.resolve_left nonempty
    rw [List.cons_append, List.cons_append, List.cons_append, List.nil_append, takeClause_hits,
      run_takeValueD_name hs name]

/-- The rank clause comes last: without a name, nothing may follow its word. -/
theorem reads_rank (hs : s.escape = .all) (hR : R.IsName) {rank : Bool}
    (hrank : rank = false → R = rankName) (c : Clauses)
    (hc : c.rank = false ∧ c.rankField = rankName) :
    Reads (takeClause s) c (rankTokens rank R) { c with rank, rankField := R } [] := by
  cases rank with
  | false => exact .inl ⟨rfl, by rw [hrank rfl, ← hc.1, ← hc.2]⟩
  | true =>
      refine .inr ⟨by simp [rankTokens], ?_⟩
      unfold rankTokens
      rw [if_pos rfl]
      split
      · next usual =>
        subst usual
        rw [← hc.2]
        exact takeClause_rank _
      · rw [List.cons_append, List.cons_append, List.cons_append, List.nil_append,
          takeClause_rank_as, run_takeValueD_name hs hR]

/-- The clauses in the order in which they are written. -/
theorem iterates_clauses (hs : s.escape = .all) (hP : P.IsContent) (hH : H = [] ∨ H.IsName)
    (hR : R.IsName) {rank : Bool} (hrank : rank = false → R = rankName) :
    Iterates (takeClause s) {} (clauseTokens H rank R P)
      { hits := H, rank, rankField := R, partition := P } [] := by
  exact (reads_partition hP _).iterates ((reads_hits hs hH _ _).iterates
    ((reads_rank hs hR hrank _ ⟨rfl, rfl⟩).iterates_last rfl))

theorem run_read (hs : s.escape = .all) (hF : F.IsContent) (hP : P.IsContent)
    (hH : H = [] ∨ H.IsName) (hR : R.IsName) {rank : Bool} (hrank : rank = false → R = rankName)
    (hn : n < 2 ^ 63) :
    (read s).run (limitTokens 10 n ++ .word "by" :: .group F :: clauseTokens H rank R P) =
      ([.int n, .text F, .text H, .flag rank, .text R, .text P], []) := by
  have limit : (if n = 10 then none else some (Decimal.ofInt n)).getD (.ofInt 10) = .ofInt n :=
    Reader.getD_limit 10 n
  rw [read, Reader.run_bind, Reader.run_takeNumber?_limit s 10 hn, Reader.run_bind, run_takeBy hF,
    Reader.run_bind, (iterates_clauses hs hP hH hR hrank).run_loop, limit]
  rfl

theorem trail_name (hs : s.escape = .all) (hR : R.IsName) :
    Trail (" as " ++ s.quote R) [.word "as", nameToken R] := by
  simpa using (Trail.word (w := "as") (by decide)).append (.name hs hR)

theorem trail_hits (hs : s.escape = .all) (hH : H = [] ∨ H.IsName) :
    Trail (if H.isEmpty then [] else " hits as " ++ s.quote H) (hitsTokens H) := by
  unfold hitsTokens
  rcases hH with rfl | name
  · exact .nil
  · rw [if_neg (by simpa using name.nonempty), if_neg name.nonempty]
    simpa using (Trail.word (w := "hits") (by decide)).append (trail_name hs name)

theorem trail_rank (hs : s.escape = .all) (hR : R.IsName) (rank : Bool) :
    Trail (flagClause (" rank" ++
      (if R.isEmpty || R == rankName then [] else " as " ++ s.quote R : Text)) rank)
      (rankTokens rank R) := by
  have word : Trail " rank" [.word "rank"] := .word (w := "rank") (by decide)
  unfold rankTokens
  cases rank with
  | false => exact .nil
  | true =>
      rw [if_pos rfl]
      by_cases usual : R = rankName
      · simpa [flagClause, usual] using word
      · have other : (R.isEmpty || R == rankName) = false := by simp [usual, hR.nonempty]
        rw [if_neg usual, other]
        exact word.append (trail_name hs hR)

end Pipe.Top

theorem top_form {H R : Text} (hs : s.escape = .all) (hF : F.IsContent) (hP : P.IsContent)
    (hH : H = [] ∨ H.IsName) (hR : R.IsName) {rank : Bool}
    (hrank : rank = false → R = Pipe.Top.rankName) (hd : d.IsWhole n) (hn : 0 < n) :
    PipeForm s
      { id := .top,
        params := [.number d, .text F, .text H, .flag rank, .text R, .text P] }
      { id := .top, params := [.int n, .text F, .text H, .flag rank, .text R, .text P] }
      (.word "top" :: (limitTokens 10 n ++
        .word "by" :: .group F :: Pipe.Top.clauseTokens H rank R P)) := by
  have number : Trail (if n = 10 then [] else ' ' :: natText n) (limitTokens 10 n) := by
    unfold limitTokens
    split
    · exact .nil
    · exact .number n
  have partition := Trail.groupClause (u := "partition") (w := "by") (by decide) (by decide) hP
  have clauses := number.append ((trail_by hF).append (partition.append
    ((Pipe.Top.trail_hits hs hH).append (Pipe.Top.trail_rank hs hR rank))))
  have opens : OpensPipe .top := by decide
  refine PipeForm.of_clauses rfl opens rfl clauses ?_ ?_
  · intro inner
    have text : (Param.number d).toText = natText n := Param.toText_number hd.isNatural
    have size : (Param.number d).toInt = n := Param.toInt_number hd
    have limit : ("top " ++ (if (Param.number d).toInt ≠ 10 ∧ (Param.number d).toInt > 0 then
        (Param.number d).toText ++ " " else []) ++ "by (" : Text) =
        "top" ++ ((if n = 10 then [] else ' ' :: natText n) ++ " by (") := by
      rw [text, size]
      by_cases ten : n = 10
      · rw [if_pos ten, if_neg (by omega)]
        rfl
      · rw [if_neg ten, if_pos (by omega)]
        simp
    change afterPipe inner ((("top " ++ (if (Param.number d).toInt ≠ 10 ∧
      (Param.number d).toInt > 0 then (Param.number d).toText ++ " " else []) ++ "by (" : Text) ++
      F ++ ")" ++ _ ++ _ ++ _) : Text) = _
    rw [limit]
    simp only [List.append_assoc]
    rfl
  · exact Pipe.Top.run_read hs hF hP hH hR hrank hd.fits

/-! ### The round trip -/

/-- The stages of a pipeline. Fields between brackets are taken as they stand, and numbers may be
given with zeros behind the point. -/
inductive IsStage : Operation → Prop
  | count {id : OperationId} (hid : id ∈ [OperationId.limit, .offset, .sample]) {d : Decimal}
      {n : Nat} (hd : d.IsWhole n) : IsStage { id, params := [.number d] }
  | sort {F : Text} (hF : F.IsContent) (desc : Bool) {d e : Decimal} {n m : Nat}
      (hd : d.IsWhole n) (he : e.IsWhole m) :
      IsStage { id := .sort, params := [.text F, .flag desc, .number d, .number e, .text []] }
  | uniq {F : Text} (hF : F.IsContent) (hits : Bool) {d : Decimal} {n : Nat} (hd : d.IsWhole n) :
      IsStage { id := .uniq, params := [.text F, .flag hits, .number d] }
  | firstLast {id : OperationId} (hid : id = .first ∨ id = .last) {F P : Text} (hF : F.IsContent)
      (hP : P.IsContent) (desc : Bool) {d : Decimal} {n : Nat} (hd : d.IsWhole n) :
      IsStage { id, params := [.number d, .text F, .flag desc, .text P] }
  | top {F H R P : Text} (hF : F.IsContent) (hH : H = [] ∨ H.IsName) (rank : Bool)
      (hR : R.IsName) (hrank : rank = false → R = "rank") (hP : P.IsContent) {d : Decimal}
      {n : Nat} (hd : d.IsWhole n) (hn : 0 < n) :
      IsStage
        { id := .top, params := [.number d, .text F, .text H, .flag rank, .text R, .text P] }
  | bare {id : OperationId}
      (hid : id ∈ [OperationId.fieldNames, .blockStats, .blocksCount, .dropEmptyFields]) :
      IsStage (.marker id)

theorem IsStage.exists_form (hs : s.escape = .all) {op : Operation} (h : IsStage op) :
    ∃ b, Query.PipePair s op b ∧ op.sameValue b.1 = true := by
  cases h with
  | count hid hd =>
      refine ⟨⟨_, _⟩, count_form hid hd.isNatural, ?_⟩
      simp [Operation.sameValue, Operation.sameParams, Param.int, Param.sameValue, hd.same]
  | sort hF desc hd he =>
      refine ⟨⟨_, _⟩, sort_form hF desc hd he (by decide), ?_⟩
      have none : Pipe.SortBy.partitionText [] = [] := rfl
      simp [Operation.sameValue, Operation.sameParams, Param.int, Param.sameValue,
        hd.same, he.same, none]
  | uniq hF hits hd =>
      refine ⟨⟨_, _⟩, uniq_form hF hits hd, ?_⟩
      simp [Operation.sameValue, Operation.sameParams, Param.int, Param.sameValue,
        hd.same]
  | firstLast hid hF hP desc hd =>
      refine ⟨⟨_, _⟩, firstLast_form hid hF hP desc hd, ?_⟩
      simp [Operation.sameValue, Operation.sameParams, Param.int, Param.sameValue,
        hd.same]
  | top hF hH rank hR hrank hP hd hn =>
      refine ⟨⟨_, _⟩, top_form hs hF hP hH hR hrank hd hn, ?_⟩
      simp [Operation.sameValue, Operation.sameParams, Param.int, Param.sameValue,
        hd.same]
  | bare hid => exact ⟨⟨_, _⟩, bare_form hid, by simp [Operation.sameValue, Operation.marker,
      Operation.sameParams]⟩

/-- The filter that every entry passes. -/
def star : Operation :=
  { id := .word, params := [.text "_msg", .text "*", .flag false, .flag false] }

theorem star_opening : Opening {} [star] [.word ['*']] where
  spells := Spells.star
  bars := by simp [Token.hasText, Token.text?]
  nonempty := by simp
  reads := rfl

/-- A star with any stages behind it is read back as it was written, numbers by their value. -/
theorem sameList_readOperations_pipeline (ps : List Operation) (h : ∀ op ∈ ps, IsStage op) :
    Operation.sameList (star :: ps) (Query.readOperations (writeOperations (star :: ps)) "_msg") =
      true := by
  obtain ⟨bs, forms, same⟩ : ∃ bs, List.Forall₂ (Query.PipePair {}) ps bs ∧
      Operation.sameList ps (bs.map Prod.fst) = true :=
    exists_forall₂_sameList fun op hop => (h op hop).exists_form rfl
  have read : Query.readOperations (writeOperations (star :: ps)) "_msg" =
      star :: bs.map Prod.fst := star_opening.read_write_pipes rfl forms
  have first : star.sameValue star = true := rfl
  rw [read, Operation.sameList, first, same]
  rfl

/-- Stages with clauses left out next to stages with all of them, a limit with a zero behind the
point, and names that collide with keywords. -/
theorem sameList_readOperations_clauses :
    let ps : List Operation :=
      [{ id := .sort, params := [.text "host, #pid", .flag true, .int 0, .int 3, .text []] },
        { id := .uniq, params := [.text [], .flag true, .int 7] },
        { id := .top, params := [.int 10, .text "a|b", .text "as", .flag true, .text "with",
          .text "by"] },
        { id := .last, params := [.int 0, .text "_time", .flag false, .text []] },
        { id := .limit, params := [.number ⟨false, 50, 1⟩] },
        .marker .fieldNames]
    (∀ op ∈ ps, IsStage op) ∧ Operation.sameList (star :: ps)
      (Query.readOperations (writeOperations (star :: ps)) "_msg") = true := by
  intro ps
  have whole (n : Nat) (h : n < 2 ^ 63) : (Decimal.ofInt n).IsWhole n := Decimal.isWhole_ofInt h
  have stages : ∀ op ∈ ps, IsStage op := by
    intro op hop
    simp only [ps, List.mem_cons, List.not_mem_nil, or_false] at hop
    rcases hop with rfl | rfl | rfl | rfl | rfl | rfl
    · exact .sort (by decide) true (whole 0 (by decide)) (whole 3 (by decide))
    · exact .uniq (by decide) true (whole 7 (by decide))
    · exact .top (by decide) (.inr (by decide)) true (by decide) (by decide) (by decide)
        (whole 10 (by decide)) (by decide)
    · exact .firstLast (.inr rfl) (by decide) (by decide) false (whole 0 (by decide))
    · exact .count (by decide) (n := 5) ⟨by decide, by decide⟩
    · exact .bare (by decide)
  exact ⟨stages, sameList_readOperations_pipeline ps stages⟩

end LogQuery
