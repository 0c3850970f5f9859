import LogQuery.Proofs.Pipe.Pipeline
import LogQuery.Proofs.Query.Concat
import LogQuery.Proofs.Stats.Function

/-!
# Unpacking record formats

The three pipes that unpack a record format write their clauses in one order and read them in
any. Each clause is a keyword with a value behind it that is taken whatever it is, so no value is
mistaken for the next keyword, and a clause that is left out leaves its default. The offset of the
syslog format alone is written as it stands, and not in quotes where it needs them. If it is a
connective, in any case of its letters, it ends the pipe; otherwise all clauses are read back.
-/

namespace LogQuery

open Lexer (Spells)
open Reader (Iterates Reads)

/-! ### Clauses of a word and a value -/

/-- The tokens of a word and of a value behind it, left out in one case. -/
def pairTokens (absent : Bool) (w : Text) (k : Token) : List Token :=
  if absent then [] else [.word w, k]

theorem Trail.pair {absent : Bool} {t w : Text} {k : Token} (hw : w.IsClauseWord)
    (hk : absent = false → Trail (' ' :: t) [k]) :
    Trail (if absent then [] else ' ' :: (w ++ ' ' :: t)) (pairTokens absent w k) := by
  cases absent with
  | true => exact .nil
  | false =>
      have both := (Trail.word hw).append (hk rfl)
      rwa [List.cons_append] at both

theorem Reader.Reads.pair {σ : Type} {step : σ → Reader (Reader.Round σ)} {c c₁ : σ}
    {absent : Bool} {w : Text} {k : Token} {rest : List Token} (left : absent = true → c₁ = c)
    (read : absent = false → (step c).run (.word w :: k :: rest) = (.more c₁, rest)) :
    Reads step c (pairTokens absent w k) c₁ rest := by
  cases absent with
  | true => exact .inl ⟨rfl, left rfl⟩
  | false => exact .inr ⟨by simp [pairTokens], read rfl⟩

/-- The first token is a word that opens no condition, if there is one. -/
def StartsClause (ts : List Token) : Prop :=
  ∀ t ∈ ts.head?, ∃ w : Text, t = .word w ∧ w.sameFold "if" = false

namespace StartsClause

variable {ts us : List Token} {w : Text}

theorem append (ht : StartsClause ts) (hu : StartsClause us) : StartsClause (ts ++ us) := by
  cases ts with
  | nil => exact hu
  | cons t ts => exact ht

theorem pair (h : w.sameFold "if" = false) (absent : Bool) (k : Token) :
    StartsClause (pairTokens absent w k) := by
  cases absent with
  | true => simp [StartsClause, pairTokens]
  | false => simpa [StartsClause, pairTokens] using h

theorem flag (h : w.sameFold "if" = false) (b : Bool) : StartsClause (flagTokens w b) := by
  cases b with
  | true => simpa [StartsClause, flagTokens] using h
  | false => simp [StartsClause, flagTokens]

theorem run_takeKeywordGroup (h : StartsClause ts) :
    (Reader.takeKeywordGroup "if").run ts = (none, ts) := by
  cases ts with
  | nil => rfl
  | cons t ts =>
      obtain ⟨w, rfl, other⟩ := h t rfl
      exact Reader.run_takeKeywordGroup_word other ts

end StartsClause

namespace Pipe.Unpack

variable {s : Scope} {id : OperationId} {c c' : Clauses} {C : Text} {o : Bool}
  {ts tail rest : List Token}

/-- The operation with these clauses and a condition. -/
def operation (id : OperationId) (c : Clauses) (C : Text) : Operation :=
  { id, params := params (hasOffset id) c C }

/-- Clauses that can be written: names, a list of fields and a condition without quotes and
brackets, and a result prefix that can be put in quotes. -/
structure IsWritable (c : Clauses) (C : Text) : Prop where
  field : c.field.IsName
  fields : c.fields.IsContent
  resultMark : Quoting.LacksMark c.resultMark
  offset : c.offset = [] ∨ c.offset.IsName
  condition : Lexer.AllInert C

/-! ### Writing -/

/-- The clause of a result prefix, always in quotes. -/
def markClause (s : Scope) (t : Text) : Text :=
  if t.isEmpty then [] else " result_prefix " ++ s.quoteAlways t

/-- The text of the clauses that all formats have. -/
def clauseText (s : Scope) (c : Clauses) (C : Text) : Text :=
  conditionClause C ++ fieldClause s " from " c.field ++ groupClause " fields" c.fields ++
    markClause s c.resultMark ++ flagClause " keep_original_fields" c.keepFields

/-- The tokens behind the condition of the clauses that all formats have. -/
def optionTokens (s : Scope) (c : Clauses) : List Token :=
  pairTokens (s.isDefaultField c.field) "from" (nameToken c.field) ++
    (pairTokens c.fields.isEmpty "fields" (.group c.fields) ++
      (pairTokens c.resultMark.isEmpty "result_prefix"
          (.quote (Quoting.enclose .all c.resultMark)) ++
        flagTokens "keep_original_fields" c.keepFields))

/-- The tokens of the clauses that all formats have. -/
def clauseTokens (s : Scope) (c : Clauses) (C : Text) : List Token :=
  Stats.conditionTokens C ++ optionTokens s c

theorem quoteAlways_eq (hs : s.escape = .all) (t : Text) :
    s.quoteAlways t = Quoting.enclose .all t := by
  simp [Scope.quoteAlways, Quoting.quoteWith, hs]

theorem trail_clauses (hs : s.escape = .all) (h : IsWritable c C) :
    Trail (clauseText s c C) (clauseTokens s c C) := by
  have field : Trail (fieldClause s " from " c.field)
      (pairTokens (s.isDefaultField c.field) "from" (nameToken c.field)) :=
    .pair (w := "from") (by decide) fun _ => .name hs h.field
  have fields : Trail (groupClause " fields" c.fields)
      (pairTokens c.fields.isEmpty "fields" (.group c.fields)) :=
    .pair (t := '(' :: (c.fields ++ [')'])) (w := "fields") (by decide) fun _ =>
      .group h.fields.inert
  have quotes := Quotes.enclose h.resultMark
  have mark : Trail (markClause s c.resultMark)
      (pairTokens c.resultMark.isEmpty "result_prefix"
        (.quote (Quoting.enclose .all c.resultMark))) := by
    rw [markClause, quoteAlways_eq hs]
    exact .pair (w := "result_prefix") (by decide) fun _ =>
      .token quotes.spells rfl (quotes.ne_separator (by simp)) quotes.isInner rfl
  have keep := Trail.flagClause (w := "keep_original_fields") (by decide) c.keepFields
  have all := ((((Stats.trail_condition h.condition).append field).append fields).append
    mark).append keep
  simp only [List.append_assoc] at all
  rw [clauseText, clauseTokens, optionTokens]
  simp only [List.append_assoc]
  exact all

/-- The last clause of the format. -/
def lastText (id : OperationId) (c : Clauses) : Text :=
  if hasOffset id then clause " offset " c.offset else flagClause " skip_empty_results" c.skipEmpty

theorem write_operation (s : Scope) (id : OperationId) (c : Clauses) (C inner : Text) :
    write s (operation id c C) inner =
      afterPipe inner (id.keyword ++ (clauseText s c C ++ lastText id c)) := by
  rw [lastText, clauseText]
  simp only [← List.append_assoc]
  cases offset : hasOffset id with
  | true =>
      have index : conditionIndex id = 4 := by rw [conditionIndex, offset, if_pos rfl]
      rw [operation, offset, write, index, offset]
      rfl
  | false =>
      have index : conditionIndex id = 5 := by
        rw [conditionIndex, offset, if_neg Bool.false_ne_true]
      rw [operation, offset, write, index, offset]
      rfl

/-! ### Reading -/

theorem takeClause_from (c : Clauses) (ts : List Token) :
    (takeClause s o c).run (.word "from" :: ts) =
      (.more { c with field := ((Reader.takeValueD s c.field).run ts).1 },
        ((Reader.takeValueD s c.field).run ts).2) := rfl

theorem takeClause_fields (c : Clauses) (t : Text) (ts : List Token) :
    (takeClause s o c).run (.word "fields" :: .group t :: ts) =
      (.more { c with
        fields := Bracket.body ⟨[], '(' :: (t ++ [')']), Lexer.tokensWithin 63 t⟩ }, ts) := rfl

/-- A word that opens neither the field nor the list of fields. -/
theorem takeClause_word {w : Text} (notFrom : (Token.word w).isKeyword "from" = false)
    (notFields : w.sameFold "fields" = false) (c : Clauses) (ts : List Token) :
    (takeClause s o c).run (.word w :: ts) =
      if (Token.word w).isKeyword "result_prefix" then
        (.more { c with resultMark := ((Reader.takeValueD s []).run ts).1 },
          ((Reader.takeValueD s []).run ts).2)
      else if (Token.word w).isKeyword "keep_original_fields" then
        (.more { c with keepFields := true }, ts)
      else if (Token.word w).isKeyword (if o then "offset" else "skip_empty_results" : Text) then
        if o then
          (.more { c with offset := ((Reader.takeValueD s []).run ts).1 },
            ((Reader.takeValueD s []).run ts).2)
        else (.more { c with skipEmpty := true }, ts)
      else (.done c, .word w :: ts) := by
  have noGroup := Reader.run_takeKeywordGroup_word notFields ts
  simp only [takeClause, Reader.run_bind, Reader.run_eatWord_cons, notFrom, Bool.false_eq_true,
    if_false, noGroup]
  split
  · rfl
  · simp only [Bool.false_eq_true, if_false, Reader.run_bind, Reader.run_eatWord_cons]
    split
    · rfl
    · simp only [Bool.false_eq_true, if_false, Reader.run_bind, Reader.run_eatWord_cons]
      cases o with
      | false =>
          simp only [Bool.false_eq_true, if_false]
          split <;> rfl
      | true =>
          simp only [if_true]
          split <;> rfl

theorem takeClause_resultMark (c : Clauses) (ts : List Token) :
    (takeClause s o c).run (.word "result_prefix" :: ts) =
      (.more { c with resultMark := ((Reader.takeValueD s []).run ts).1 },
        ((Reader.takeValueD s []).run ts).2) := takeClause_word rfl rfl c ts

theorem takeClause_keep (c : Clauses) (ts : List Token) :
    (takeClause s o c).run (.word "keep_original_fields" :: ts) =
      (.more { c with keepFields := true }, ts) := takeClause_word rfl rfl c ts

theorem takeClause_skip (c : Clauses) (ts : List Token) :
    (takeClause s false c).run (.word "skip_empty_results" :: ts) =
      (.more { c with skipEmpty := true }, ts) := takeClause_word rfl rfl c ts

theorem takeClause_offset (c : Clauses) (ts : List Token) :
    (takeClause s true c).run (.word "offset" :: ts) =
      (.more { c with offset := ((Reader.takeValueD s []).run ts).1 },
        ((Reader.takeValueD s []).run ts).2) := takeClause_word rfl rfl c ts

theorem takeClause_nil (c : Clauses) : (takeClause s o c).run [] = (.done c, []) := by
  cases o <;> rfl

/-- The clauses in the order in which they are written. -/
theorem iterates_clauses (hs : s.escape = .all) (h : IsWritable c C)
    (last : Reads (takeClause s o) { c with skipEmpty := false, offset := [] } tail c' []) :
    Iterates (takeClause s o) (.start s) (optionTokens s c ++ tail) c' [] := by
  have field (rest : List Token) : Reads (takeClause s o) (.start s)
      (pairTokens (s.isDefaultField c.field) "from" (nameToken c.field)) { field := c.field }
      rest := by
    refine .pair (fun default => ?_) fun _ => ?_
    · have same : c.field = s.defaultField := by
        simpa [Scope.isDefaultField, h.field.nonempty] using default
      rw [same]
      rfl
    · rw [takeClause_from, Top.run_takeValueD_name hs h.field]
      rfl
  have fields (rest : List Token) : Reads (takeClause s o) { field := c.field }
      (pairTokens c.fields.isEmpty "fields" (.group c.fields))
      { field := c.field, fields := c.fields } rest := by
    refine .pair (fun empty => by rw [List.isEmpty_iff.mp empty]) fun _ => ?_
    rw [takeClause_fields, body_group h.fields]
  have quotes := Quotes.enclose h.resultMark
  have mark (rest : List Token) : Reads (takeClause s o) { field := c.field, fields := c.fields }
      (pairTokens c.resultMark.isEmpty "result_prefix"
        (.quote (Quoting.enclose .all c.resultMark)))
      { field := c.field, fields := c.fields, resultMark := c.resultMark } rest := by
    refine .pair (fun empty => by rw [List.isEmpty_iff.mp empty]) fun _ => ?_
    have notComma := quotes.ne_separator (c := ',') (by simp)
    rw [takeClause_resultMark, Reader.run_takeValueD s [] rfl
      (by simpa [Token.hasText, Token.text?] using notComma), quotes.value_eq hs]
  have keep (rest : List Token) : Reads (takeClause s o)
      { field := c.field, fields := c.fields, resultMark := c.resultMark }
      (flagTokens "keep_original_fields" c.keepFields)
      { c with skipEmpty := false, offset := [] } rest := by
    refine .flag (fun absent => by rw [absent]) fun present => ?_
    rw [takeClause_keep, present]
  have all := (field _).iterates ((fields _).iterates ((mark _).iterates ((keep _).iterates
    (last.iterates_last (takeClause_nil c')))))
  simpa [optionTokens] using all

theorem startsClause_clauses (s : Scope) (c : Clauses) : StartsClause (optionTokens s c) :=
  (StartsClause.pair rfl _ _).append ((StartsClause.pair rfl _ _).append
    ((StartsClause.pair rfl _ _).append (.flag rfl _)))

/-- The condition, the clauses that all formats have and the last one. -/
theorem run_read (hs : s.escape = .all) (h : IsWritable c C) (starts : StartsClause tail)
    (last : Reads (takeClause s o) { c with skipEmpty := false, offset := [] } tail c' []) :
    (read s o).run (clauseTokens s c C ++ tail) =
      (params o c' C, []) := by
  have opening := ((startsClause_clauses s c).append starts).run_takeKeywordGroup
  rw [clauseTokens, List.append_assoc, read, Reader.run_bind,
    Stats.run_takeCondition_append opening,
    Reader.run_bind, (iterates_clauses hs h last).run_loop]
  rfl

/-! ### The last clause -/

/-- The pipes that unpack a record format. -/
def formats : List OperationId := [.unpackJson, .unpackLogfmt, .unpackSyslog]

theorem define_eq (hid : id ∈ formats) (s : Scope) : define s id = definition s id := by
  simp only [formats, List.mem_cons, List.not_mem_nil, or_false] at hid
  rcases hid with rfl | rfl | rfl <;> rfl

theorem opensPipe_of_mem (hid : id ∈ formats) : OpensPipe id := by
  revert id
  decide

/-- No connective, in any case of its letters. -/
def IsFree (w : Text) : Prop := ∀ id ∈ [OperationId.and, .or, .not], w.lower ≠ id.keyword

theorem isClauseWord_of_isFree {w : Text} (name : w.IsName) (free : IsFree w) :
    w.IsClauseWord := by
  refine { name with inner := ?_ }
  have bar : w ≠ ['|'] := name.ne ⟨'|', by simp, by decide⟩
  have connective : (Token.word w).isConnective = false := by
    rw [Token.isConnective, Token.word?, Option.any_some, Text.isOneOf, List.contains_eq_mem]
    simp only [List.mem_cons, List.not_mem_nil, or_false, decide_eq_false_iff_not, not_or]
    exact ⟨free .and (by decide), free .or (by decide), free .not (by decide)⟩
  simpa [Token.isInner, Token.hasText, Token.text?, Token.isComment, connective] using bar

/-- The tokens of the last clause. -/
def lastTokens (id : OperationId) (c : Clauses) : List Token :=
  if hasOffset id then pairTokens c.offset.isEmpty "offset" (.word c.offset)
  else flagTokens "skip_empty_results" c.skipEmpty

theorem trail_last (h : IsWritable c C) (free : hasOffset id = true → IsFree c.offset) :
    Trail (lastText id c) (lastTokens id c) := by
  cases offset : hasOffset id with
  | true =>
      rw [lastText, lastTokens, offset, if_pos rfl, if_pos rfl]
      refine .pair (w := "offset") (by decide) fun some => ?_
      have name := h.offset.resolve_left (List.isEmpty_eq_false_iff.mp some)
      exact .word (isClauseWord_of_isFree name (free offset))
  | false =>
      rw [lastText, lastTokens, offset, if_neg Bool.false_ne_true, if_neg Bool.false_ne_true]
      exact .flagClause (w := "skip_empty_results") (by decide) c.skipEmpty

theorem startsClause_last (id : OperationId) (c : Clauses) : StartsClause (lastTokens id c) := by
  rw [lastTokens]
  split
  · exact .pair rfl _ _
  · exact .flag rfl _

theorem run_read_last (hs : s.escape = .all) (h : IsWritable c C) :
    (read s (hasOffset id)).run
        (clauseTokens s c C ++ lastTokens id c) =
      (params (hasOffset id) c C, []) := by
  have starts := startsClause_last id c
  cases offset : hasOffset id with
  | true =>
      rw [lastTokens, offset, if_pos rfl] at starts ⊢
      have last : Reads (takeClause s true) { c with skipEmpty := false, offset := [] }
          (pairTokens c.offset.isEmpty "offset" (.word c.offset)) { c with skipEmpty := false }
          [] := by
        refine .pair (fun empty => by rw [List.isEmpty_iff.mp empty]) fun some => ?_
        have name := h.offset.resolve_left (List.isEmpty_eq_false_iff.mp some)
        have notComma : c.offset ≠ [','] := name.ne ⟨',', by simp, by decide⟩
        rw [takeClause_offset, Reader.run_takeValueD s [] rfl
          (by simpa [Token.hasText, Token.text?] using notComma)]
        rfl
      rw [run_read hs h starts last]
      rfl
  | false =>
      rw [lastTokens, offset, if_neg Bool.false_ne_true] at starts ⊢
      have last : Reads (takeClause s false) { c with skipEmpty := false, offset := [] }
          (flagTokens "skip_empty_results" c.skipEmpty) { c with offset := [] } [] := by
        refine .flag (fun absent => by rw [absent]) fun present => ?_
        rw [takeClause_skip, present]
      rw [run_read hs h starts last]
      rfl

/-! ### The round trip -/

/-- With all clauses given or left out, the pipe is read back. -/
theorem unpack_form (hid : id ∈ formats) (hs : s.escape = .all) (h : IsWritable c C)
    (free : hasOffset id = true → IsFree c.offset) :
    PipeForm s (operation id c C) (operation id c C)
      (.word id.keyword ::
        (clauseTokens s c C ++ lastTokens id c)) := by
  refine PipeForm.of_clauses rfl (opensPipe_of_mem hid) rfl
    ((trail_clauses hs h).append (trail_last h free)) ?_ ?_
  · intro inner
    change (define s id).write _ inner = _
    rw [define_eq hid]
    exact write_operation s id c C inner
  · change ((define s id).read none).run _ = _
    rw [define_eq hid]
    exact run_read_last hs h

/-! ### Connectives for offsets -/

/-- The tokens of a pipe up to the keyword of its offset. -/
def openTokens (s : Scope) (id : OperationId) (c : Clauses) (C : Text) : List Token :=
  .word id.keyword :: (clauseTokens s c C ++ [.word "offset"])

theorem trail_open (hs : s.escape = .all) (h : IsWritable c C) :
    Trail (clauseText s c C ++ " offset") (clauseTokens s c C ++ [.word "offset"]) :=
  (trail_clauses hs h).append (.word (w := "offset") (by decide))

theorem isInner_openTokens (hid : id ∈ formats) (hs : s.escape = .all) (h : IsWritable c C) :
    ∀ t ∈ openTokens s id c C, t.isInner = true := by
  intro t ht
  rcases List.mem_cons.mp ht with rfl | ht
  · exact isInner_keyword (by simp [(opensPipe_of_mem hid).1])
  · exact (trail_open hs h).inner t ht

/-- Without a value behind it the keyword leaves the offset empty. -/
theorem readNext_openTokens (hid : id ∈ formats) (hs : s.escape = .all) (h : IsWritable c C)
    (offset : hasOffset id = true) :
    (Query.readNext s false).run (openTokens s id c C) =
      ([operation id { c with offset := [] } C], []) := by
  have first : ∀ t ∈ (clauseTokens s c C ++ [Token.word "offset"]).head?, t ≠ .field [] := by
    rintro t ht rfl
    have noField := (trail_open hs h).noField _ (List.mem_of_mem_head? ht)
    simp [Token.field?] at noField
  have starts : StartsClause [.word "offset"] := by
    intro t ht
    obtain rfl := Option.some.inj ht
    exact ⟨"offset", rfl, rfl⟩
  have read : (Unpack.read s true).run (clauseTokens s c C ++ [.word "offset"]) =
      (params true { c with skipEmpty := false, offset := [] } C, []) := by
    refine run_read hs h starts (.inr ⟨by simp, ?_⟩)
    rw [List.append_nil, takeClause_offset]
    rfl
  have taken : ((define s id).read none).run (clauseTokens s c C ++ [.word "offset"]) =
      (params true { c with skipEmpty := false, offset := [] } C, []) := by
    rw [define_eq hid]
    change (Unpack.read s (hasOffset id)).run _ = _
    rw [offset, read]
  rw [openTokens, readNext_keyword (opensPipe_of_mem hid) first, taken, operation, offset]
  rfl

theorem isConnective_word {w : Text} (hid : id ∈ [OperationId.and, .or, .not])
    (same : w.lower = id.keyword) : (Token.word w).isConnective = true := by
  rw [Token.isConnective, Token.word?, Option.any_some, same]
  clear same
  revert id
  decide

theorem readRun_word {w : Text} (hid : id ∈ [OperationId.and, .or, .not])
    (same : w.lower = id.keyword) (b : Bool) :
    Query.readRun s b [.word w] = ([.marker id], true) := by
  have connective : Query.connective? (.word w) = some id := by
    rw [Query.connective?, Token.word?, Option.bind_some, same]
    clear same
    revert id
    decide
  rw [Query.readRun, connective]

/-- An operation in front of a connective. -/
theorem readRuns_cut_off {us : List Token} {op : Operation} {w : Text} (nonempty : us ≠ [])
    (inner : ∀ t ∈ us, t.isInner = true) (category : op.id.category ≠ .stats)
    (read : (Query.readNext s false).run us = ([op], []))
    (hid : id ∈ [OperationId.and, .or, .not]) (same : w.lower = id.keyword) :
    Query.readRuns s false (Segment.runs (us ++ [.word w])) = ([op, .marker id], true) := by
  have runs : Segment.runs (us ++ [.word w]) = [us, [.word w]] :=
    Segment.runs_append (fun t ht => Query.isConnective_of_isInner (inner t ht))
      (isConnective_word hid same)
  rw [runs, Query.readRuns, Query.readRun_inner nonempty inner,
    Query.readSegment_run nonempty read category, Query.readRuns, readRun_word hid same]
  rfl

/-- What is written behind a star has the tokens of the pipe with the offset as a word. -/
theorem spells_offset (hid : id ∈ formats) (h : IsWritable c C) (offset : hasOffset id = true)
    (name : c.offset.IsName) :
    Spells 63 ([star, operation id c C].foldl ({} : Writer).step { out := [] }).out
      ([.word ['*']] ++ .word ['|'] :: (openTokens {} id c C ++ [.word c.offset])) := by
  have keyword : Spells 63 id.keyword [.word id.keyword] := .name (Text.isName_keyword id)
  have last : lastText id c = (" offset" ++ ' ' :: c.offset : Text) := by
    rw [lastText, offset, if_pos rfl, clause, if_neg (by simpa using name.nonempty)]
    rfl
  have spells : Spells 63 (id.keyword ++ (clauseText {} c C ++ lastText id c))
      (openTokens {} id c C ++ [.word c.offset]) := by
    have all := ((trail_open (s := {}) rfl h).spells keyword).space (.name name)
    rwa [List.append_assoc, List.append_assoc, ← last] at all
  have category : (operation id c C).id.category = .pipes := (opensPipe_of_mem hid).1
  have written : (define {} id).write (operation id c C) ['*'] =
      ['*'] ++ ' ' :: '|' :: ' ' :: (id.keyword ++ (clauseText {} c C ++ lastText id c)) := by
    rw [define_eq hid]
    exact write_operation {} id c C ['*']
  rw [List.foldl_cons, List.foldl_cons, List.foldl_nil]
  exact Writer.spells_step_bar rfl star_opening.spells rfl category spells written

/-- A connective for an offset ends the pipe: the offset is lost, and the connective is an
operation of its own. -/
theorem readOperations_connective (hid : id ∈ formats) (h : IsWritable c C)
    (offset : hasOffset id = true) {conn : OperationId}
    (hconn : conn ∈ [OperationId.and, .or, .not]) (same : c.offset.lower = conn.keyword) :
    Query.readOperations (writeOperations [star, operation id c C]) "_msg" =
      [star, operation id { c with offset := [] } C, .marker conn] := by
  have name : c.offset.IsName := by
    refine h.offset.resolve_left fun empty => ?_
    rw [empty] at same
    clear empty
    revert conn
    decide
  have spells := spells_offset hid h offset name
  have inner := isInner_openTokens hid (s := {}) rfl h
  have bars : ∀ t ∈ openTokens {} id c C ++ [.word c.offset], t.hasText "|" = false := by
    intro t ht
    rcases List.mem_append.mp ht with ht | ht
    · exact Query.hasText_bar_of_isInner (inner t ht)
    · rw [List.mem_singleton.mp ht]
      have other : c.offset ≠ ['|'] := name.ne ⟨'|', by simp, by decide⟩
      simpa [Token.hasText, Token.text?] using other
  have bar : (Token.word ['|']).hasText "|" = true := rfl
  have stages : Segment.stages ([.word ['*']] ++ .word ['|'] ::
      (openTokens {} id c C ++ [.word c.offset])) =
      [[.word ['*']], openTokens {} id c C ++ [.word c.offset]] :=
    (Segment.splitAt_append star_opening.bars bar).trans
      (congrArg _ (Segment.splitAt_of_none (by simp) bars))
  have category : (operation id { c with offset := [] } C).id.category ≠ .stats := by
    change id.category ≠ .stats
    simp [(opensPipe_of_mem hid).1]
  have pipe := readRuns_cut_off (by simp [openTokens]) inner category
    (readNext_openTokens hid rfl h offset) hconn same
  change (Query.read { scope := {} } (({} : Writer).writeOperations _)).operations = _
  rw [Query.operations_read, Writer.writeOperations, Writer.writeAfter, spells.tight.trim_eq,
    tokenize_of_spells spells, stages, List.flatMap_cons, List.flatMap_singleton,
    Query.readRuns_append, star_opening.reads, pipe]
  rfl

/-! ### All offsets -/

/-- Behind a star, an unpacking pipe is read back as it was written if and only if it has no
offset that is a connective, in any case of its letters. -/
theorem readOperations_unpack_iff (hid : id ∈ formats) (h : IsWritable c C) :
    Query.readOperations (writeOperations [star, operation id c C]) "_msg" =
        [star, operation id c C] ↔
      (hasOffset id = true → ∀ conn ∈ [OperationId.and, .or, .not],
        c.offset.lower ≠ conn.keyword) := by
  constructor
  · intro back offset conn hconn same
    rw [readOperations_connective hid h offset hconn same] at back
    have length := congrArg List.length back
    simp at length
  · intro free
    have form : Query.PipePair {} (operation id c C) (operation id c C, _) :=
      unpack_form hid rfl h free
    exact star_opening.read_write_pipes rfl (.cons form .nil)

/-- All clauses of the syslog format, with values that are keywords or look like clauses, and a
flag of the formats without an offset. -/
theorem readOperations_unpack_clauses :
    let c : Clauses :=
      { field := "from", fields := "if, offset", resultMark := "a` | \"", keepFields := true,
        offset := "fields" }
    let d : Clauses := { field := "_msg", resultMark := ",", skipEmpty := true }
    IsWritable c " x:y | and " ∧ IsWritable d [] ∧
      Query.readOperations
          (writeOperations [star, operation .unpackSyslog c " x:y | and "]) "_msg" =
        [star, operation .unpackSyslog c " x:y | and "] ∧
      Query.readOperations (writeOperations [star, operation .unpackJson d []]) "_msg" =
        [star, operation .unpackJson d []] := by
  intro c d
  have all : IsWritable c " x:y | and " :=
    ⟨by decide, by decide, ⟨.single, by decide⟩, .inr (by decide), by decide⟩
  have few : IsWritable d [] :=
    ⟨by decide, by decide, ⟨.backtick, by decide⟩, .inl rfl, by decide⟩
  exact ⟨all, few, (readOperations_unpack_iff (by decide) all).mpr (by decide),
    (readOperations_unpack_iff (by decide) few).mpr (by decide)⟩

/-- The offset is a name and none of the three words in small letters. -/
theorem readOperations_unpack_upper :
    let c : Clauses := { field := "_msg", offset := "AND" }
    IsWritable c [] ∧ c.offset ∉ (["and", "or", "not"] : List Text) ∧
      Query.readOperations (writeOperations [star, operation .unpackSyslog c []]) "_msg" =
        [star, operation .unpackSyslog { field := "_msg" } [], .marker .and] ∧
      Query.readOperations (writeOperations [star, operation .unpackSyslog c []]) "_msg" ≠
        [star, operation .unpackSyslog c []] := by
  intro c
  have writable : IsWritable c [] :=
    ⟨by decide, by decide, ⟨.backtick, by decide⟩, .inr (by decide), by decide⟩
  have format : OperationId.unpackSyslog ∈ formats := by decide
  have lower : c.offset.lower = OperationId.and.keyword := by decide
  have read := readOperations_connective format writable (by decide) (by decide) lower
  refine ⟨writable, by decide, read, ?_⟩
  rw [read]
  intro same
  have length := congrArg List.length same
  simp at length

end Pipe.Unpack

end LogQuery
