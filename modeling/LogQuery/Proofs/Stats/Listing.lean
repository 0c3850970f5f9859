import LogQuery.Proofs.Pipe.Pipeline
import LogQuery.Proofs.Stats.Function

/-!
# Lists of stats functions

A list of functions is read in two ways: the pipe that holds it keeps its text, and the reader
of function lists takes it apart. Both are given the tokens that the list spells. Compacted they
are the text again, and taken apart they are the functions.
-/

namespace LogQuery

open Lexer (Spells AllInert)
open Reader (Iterates)

namespace Stats

variable {s : Scope} {op back : Operation} {ops : List Operation} {ts : List Token}

/-- A function with the operation read back and its tokens. -/
abbrev FormPair (s : Scope) (op : Operation) (read : Operation × List Token) : Prop :=
  Form s op read.1 read.2

variable {bs : List (Operation × List Token)}

/-- The tokens of the functions after the first one. -/
def moreTokens (bs : List (Operation × List Token)) : List Token :=
  (bs.map Prod.snd).flatMap (.word [','] :: ·)

/-! ### Writing -/

theorem step_function (enabled : op.disabled = false) (category : op.id.category = .stats)
    (st : Writer.State) :
    (Writer.stats s).step st op = Writer.appendFunction st (define s op.id) op := by
  have known : (Writer.stats s).definition? op.id = some (define s op.id) := by
    rw [Writer.definition?, category]
    rfl
  have only : (Writer.stats s).statsOnly = true := rfl
  simp [Writer.step, enabled, known, only]

/-- Functions behind those that are written already. -/
theorem listed_foldl {st : Writer.State} (h : Listed st.out ts)
    (forms : List.Forall₂ (FormPair s) ops bs) :
    Listed (ops.foldl (Writer.stats s).step st).out (ts ++ moreTokens bs) := by
  induction forms generalizing st ts with
  | nil => simpa [moreTokens] using h
  | @cons op b ops bs form rest ih =>
      have nonempty : st.out ≠ [] := h.spells.tight.nonempty
      have next : ((Writer.stats s).step st op).out =
          st.out ++ ", " ++ (define s op.id).write op [] := by
        rw [step_function form.enabled form.category, Writer.appendFunction,
          if_neg (by simpa using nonempty)]
      have listed := h.append form.listed
      rw [← next] at listed
      simpa [moreTokens] using ih listed

/-- The tokens of a list of functions. -/
def listTokens : List (Operation × List Token) → List Token
  | [] => []
  | b :: bs => b.2 ++ moreTokens bs

theorem writeOperations_stats (forms : List.Forall₂ (FormPair s) ops bs) :
    (ops = [] ∧ bs = []) ∨ Listed ((Writer.stats s).writeOperations ops) (listTokens bs) := by
  cases forms with
  | nil => exact .inl ⟨rfl, rfl⟩
  | @cons op b ops bs form rest =>
      have first : ((Writer.stats s).step { out := [] } op).out = (define s op.id).write op [] := by
        rw [step_function form.enabled form.category]
        rfl
      have listed : Listed ((Writer.stats s).step { out := [] } op).out b.2 := by
        rw [first]
        exact form.listed
      have all := listed_foldl listed rest
      right
      rw [Writer.writeOperations, Writer.writeAfter, List.foldl_cons, all.spells.tight.trim_eq]
      exact all

/-! ### Taking the list apart -/

theorem atComma_moreTokens (bs : List (Operation × List Token)) : AtComma (moreTokens bs) := by
  cases bs with
  | nil => simp [AtComma, moreTokens]
  | cons b bs => simp [AtComma, moreTokens]

/-- A round reads a function and the comma behind it. -/
theorem readStatsRound_run (form : Form s op back ts) (bs : List (Operation × List Token))
    (acc : List Operation) :
    (Query.readStatsRound s acc).run (ts ++ moreTokens bs) =
      (.more (acc ++ [back]), (moreTokens bs).tail) := by
  have read := form.read (moreTokens bs) (atComma_moreTokens bs)
  obtain ⟨A, us, rfl⟩ := form.call
  have comma : (Reader.eatText [',']).run (moreTokens bs) =
      (!(moreTokens bs).isEmpty, (moreTokens bs).tail) := by
    cases bs <;> rfl
  have taken : ¬ (moreTokens bs).length = us.length + (moreTokens bs).length + 1 := by omega
  simp at read
  simp [Query.readStatsRound, read, comma, taken]

theorem length_tail_lt (form : Form s op back ts) (bs : List (Operation × List Token)) :
    (moreTokens bs).tail.length < (ts ++ moreTokens bs).length := by
  obtain ⟨A, us, rfl⟩ := form.call
  simp only [List.length_tail, List.cons_append, List.length_cons, List.length_append]
  omega

theorem iterates_functions (form : Form s op back ts) (forms : List.Forall₂ (FormPair s) ops bs)
    (acc : List Operation) :
    Iterates (Query.readStatsRound s) acc (ts ++ moreTokens bs) (acc ++ back :: bs.map Prod.fst)
      [] := by
  induction forms generalizing op back ts acc with
  | nil => exact .more (readStatsRound_run form [] acc) (length_tail_lt form []) (.done rfl)
  | @cons op' b ops bs form' rest ih =>
      refine .more (readStatsRound_run form (b :: bs) acc) (length_tail_lt form (b :: bs)) ?_
      simpa [moreTokens] using ih form' (acc ++ [back])

/-- The reader of function lists gives back the functions. -/
theorem readStatsFunctions_write {field : Text}
    (forms : List.Forall₂ (FormPair { defaultField := field }) ops bs) :
    Query.readStatsFunctions ((Writer.stats { defaultField := field }).writeOperations ops) field =
      bs.map Prod.fst := by
  rcases writeOperations_stats forms with ⟨rfl, rfl⟩ | listed
  · rfl
  · cases forms with
    | nil => rfl
    | @cons op b ops bs form rest =>
        have tokens := listed.spells.tokensWithin_eq
        have loop := (iterates_functions form rest []).run_loop
        rw [Query.readStatsFunctions, tokenize, Lexer.maxNesting, tokens]
        exact congrArg Prod.fst loop

/-! ### The pipe that holds the list -/

/-- The tokens of the fields to group by. -/
def byTokens (B : Text) : List Token := if B = [] then [] else [.word "by", .group B]

theorem trail_byTokens {B : Text} (hB : B.IsContent) :
    Trail (groupClause " by" B) (byTokens B) := by
  unfold byTokens
  split
  · next empty =>
    subst empty
    exact .nil
  · next nonempty => simpa [groupClause, nonempty] using trail_by hB

theorem run_takeByGroup_keyword (id : OperationId) (A : Text) (us : List Token) :
    Reader.takeByGroup.run (.call id.keyword A :: us) = (none, .call id.keyword A :: us) := by
  refine Reader.run_takeByGroup_call (Text.isName_keyword id).nonempty ?_ A us
  cases id <;> rfl

theorem run_read {B T : Text} (hB : B.IsContent) (hgroup : Reader.takeByGroup.run ts = (none, ts))
    (compact : ts.foldl Token.addCompact [] = T) :
    Pipe.Stats.read.run (byTokens B ++ ts) = ([.text B, .text T], []) := by
  rw [Pipe.Stats.read, Reader.run_bind]
  unfold byTokens
  split
  · next empty =>
    rw [List.nil_append, hgroup, Reader.run_bind, Reader.run_all, Token.compactText_eq, compact,
      empty]
    rfl
  · rw [List.cons_append, List.cons_append, List.nil_append, Reader.run_takeByGroup,
      Option.map_some, Option.getD_some, body_group hB, Reader.run_bind, Reader.run_all,
      Token.compactText_eq, compact]
    rfl

theorem stats_form {B T : Text} (hB : B.IsContent) (list : Trail (clause " " T) ts)
    (hgroup : Reader.takeByGroup.run ts = (none, ts))
    (compact : ts.foldl Token.addCompact [] = T) :
    PipeForm s { id := .stats, params := [.text B, .text T] }
      { id := .stats, params := [.text B, .text T] } (.word "stats" :: (byTokens B ++ ts)) := by
  have opens : OpensPipe .stats := by decide
  refine PipeForm.of_clauses rfl opens rfl ((trail_byTokens hB).append list) ?_ ?_
  · intro inner
    change afterPipe inner ("stats" ++ groupClause " by" B ++ clause " " T) = _
    rw [List.append_assoc]
  · exact run_read hB hgroup compact

/-- A list of functions in a pipe is read back with its text. -/
theorem exists_stats_form {B : Text} (hB : B.IsContent)
    (forms : List.Forall₂ (FormPair s) ops bs) :
    ∃ us, PipeForm s
      { id := .stats, params := [.text B, .text ((Writer.stats s).writeOperations ops)] }
      { id := .stats, params := [.text B, .text ((Writer.stats s).writeOperations ops)] } us := by
  rcases writeOperations_stats forms with ⟨rfl, rfl⟩ | listed
  · exact ⟨_, stats_form hB .nil rfl rfl⟩
  · have nonempty := listed.spells.tight.nonempty
    have list : Trail (clause " " ((Writer.stats s).writeOperations ops)) (listTokens bs) := by
      rw [clause, if_neg (by simpa using nonempty)]
      exact listed.trail
    refine ⟨_, stats_form hB list ?_ listed.start⟩
    cases forms with
    | nil => rfl
    | @cons op b ops bs form rest =>
        obtain ⟨A, us, tokens⟩ := form.call
        rw [listTokens, tokens]
        exact run_takeByGroup_keyword op.id A _

/-! ### Agreement -/

/-- The stats functions. Fields are taken as they stand between the brackets, a condition may
have white space at its ends, and a result field is a name. -/
inductive IsFunction : Operation → Prop
  | plain {id : OperationId} (hid : IsPlain id) {F R C : Text} (hF : F.IsContent)
      (hR : R = [] ∨ R.IsName) (hC : AllInert C) :
      IsFunction { id, params := [.text F, .text R, .text C] }
  | limited {id : OperationId} (hid : id ∈ limited) {F R C : Text} (hF : F.IsContent)
      {d : Decimal} {n : Nat} (hd : d.IsWhole n) (hR : R = [] ∨ R.IsName) (hC : AllInert C) :
      IsFunction { id, params := [.text F, .number d, .text R, .text C] }
  | quantile {F R C : Text} {d : Decimal} {n : Nat} (hd : d.IsWhole n) (hF : F.IsContent)
      (hR : R = [] ∨ R.IsName) (hC : AllInert C) :
      IsFunction { id := .quantile, params := [.number d, .text F, .text R, .text C] }
  | rate {R C : Text} (hR : R = [] ∨ R.IsName) (hC : AllInert C) :
      IsFunction { id := .rate, params := [.text R, .text C] }

theorem IsFunction.exists_form (hs : s.escape = .all) (h : IsFunction op) :
    ∃ b, FormPair s op b ∧ op.sameValue b.1 = true := by
  cases h with
  | plain hid hF hR hC =>
      exact ⟨⟨_, _⟩, plain_form hs hid hF hR hC, by
        simp [Operation.sameValue, Operation.sameParams, Param.sameValue]⟩
  | limited hid hF hd hR hC =>
      exact ⟨⟨_, _⟩, limited_form hs hid hF hd hR hC, by
        simp [Operation.sameValue, Operation.sameParams, Param.sameValue, Param.int, hd.same]⟩
  | quantile hd hF hR hC =>
      exact ⟨⟨_, _⟩, quantile_form hs hd hF hR hC, by
        simp [Operation.sameValue, Operation.sameParams, Param.sameValue, Param.int, hd.same]⟩
  | rate hR hC =>
      exact ⟨⟨_, _⟩, rate_form hs hR hC, by
        simp [Operation.sameValue, Operation.sameParams, Param.sameValue]⟩

/-- The text of a list of functions is kept by the pipe that holds it, and the reader of
function lists gives the functions back, numbers by their value. -/
theorem stats_pipe_agrees_with_functions (ops : List Operation) (h : ∀ op ∈ ops, IsFunction op)
    {B : Text} (hB : B.IsContent) :
    let functions := (Writer.stats {}).writeOperations ops
    let query := [star, { id := .stats, params := [.text B, .text functions] }]
    Query.readOperations (writeOperations query) "_msg" = query ∧
      Operation.sameList ops (Query.readStatsFunctions functions "_msg") = true := by
  intro functions query
  obtain ⟨bs, forms, same⟩ : ∃ bs, List.Forall₂ (FormPair {}) ops bs ∧
      Operation.sameList ops (bs.map Prod.fst) = true :=
    exists_forall₂_sameList fun op hop => (h op hop).exists_form rfl
  obtain ⟨us, form⟩ := exists_stats_form hB forms
  have pipes : List.Forall₂ (Query.PipePair {})
      [{ id := .stats, params := [.text B, .text functions] }]
      [({ id := .stats, params := [.text B, .text functions] }, us)] := .cons form .nil
  have read : Query.readOperations (writeOperations query) "_msg" = query :=
    star_opening.read_write_pipes rfl pipes
  have apart : Query.readStatsFunctions functions "_msg" = bs.map Prod.fst :=
    readStatsFunctions_write forms
  rw [apart]
  exact ⟨read, same⟩

/-- Functions of every layout, with commas inside the brackets of some, conditions with white
space at their ends and a result field that is a keyword. -/
theorem stats_pipe_agrees_with_layouts :
    let ops : List Operation :=
      [{ id := .count, params := [.text [], .text "by", .text " a:b "] },
        { id := .uniqValues, params := [.text "a, b", .number ⟨false, 30, 1⟩, .text [], .text []] },
        { id := .quantile, params := [.int 99, .text "x, y", .text "p99", .text []] },
        { id := .rate, params := [.text [], .text "c"] }]
    let functions := (Writer.stats {}).writeOperations ops
    let query := [star, { id := .stats, params := [.text "host, pod", .text functions] }]
    ((∀ op ∈ ops, IsFunction op) ∧ Text.IsContent "host, pod") ∧
      Query.readOperations (writeOperations query) "_msg" = query ∧
        Operation.sameList ops (Query.readStatsFunctions functions "_msg") = true := by
  intro ops functions query
  have functions : ∀ op ∈ ops, IsFunction op := by
    intro op hop
    simp only [ops, List.mem_cons, List.not_mem_nil, or_false] at hop
    rcases hop with rfl | rfl | rfl | rfl
    · exact .plain (by decide) (by decide) (.inr (by decide)) (by decide)
    · exact .limited (by decide) (by decide) (n := 3) ⟨by decide, by decide⟩ (.inl rfl) (by decide)
    · exact .quantile (n := 99) ⟨by decide, by decide⟩ (by decide) (.inr (by decide)) (by decide)
    · exact .rate (.inl rfl) (by decide)
  have fields : Text.IsContent "host, pod" := by decide
  exact ⟨⟨functions, fields⟩, stats_pipe_agrees_with_functions ops functions fields⟩

end Stats

end LogQuery
