import LogQuery.Proofs.Query.Clause
import LogQuery.Catalog
import LogQuery.Query.Reader

/-!
# Stats functions

A stats function is a call with a limit, a condition and a result field behind it, each of
which may be left out. Its tokens end at a comma or at the end of the list, which is where its
reader stops.
-/

namespace LogQuery

open Lexer (Spells Lexes AllInert)
open Decimal (natText)

namespace Stats

variable {s : Scope} {C F R kw : Text} {d : Decimal} {n : Nat} {ts rest : List Token}

/-- Nothing follows, or a comma does. -/
def AtComma (rest : List Token) : Prop := ∀ t ∈ rest.head?, t = .word [',']

/-! ### Condition and result field -/

/-- The tokens of a condition. -/
def conditionTokens (C : Text) : List Token := if C = [] then [] else [.word "if", .group C]

/-- The tokens of a result field. -/
def resultTokens (R : Text) : List Token := if R = [] then [] else [.word "as", nameToken R]

theorem trail_condition (hC : AllInert C) : Trail (conditionClause C) (conditionTokens C) := by
  unfold conditionTokens
  split
  · next empty =>
    subst empty
    exact .nil
  · next nonempty =>
    simpa [conditionClause, nonempty] using
      (Trail.word (w := "if") (by decide)).append (.group hC)

theorem trail_result (hs : s.escape = .all) (hR : R = [] ∨ R.IsName) :
    Trail (Pipe.resultClause s R) (resultTokens R) := by
  unfold resultTokens
  rcases hR with rfl | name
  · exact .nil
  · simpa [Pipe.resultClause, clause, name.nonempty] using
      (Trail.word (w := "as") (by decide)).append (.name hs name)

theorem AtComma.eq_nil_or_cons (h : AtComma rest) : rest = [] ∨ ∃ us, rest = .word [','] :: us := by
  cases rest with
  | nil => exact .inl rfl
  | cons t us => exact .inr ⟨us, by rw [h t rfl]⟩

/-- Neither a result field nor what follows it is a condition. -/
theorem run_takeKeywordGroup_result (hrest : AtComma rest) (R : Text) :
    (Reader.takeKeywordGroup "if").run (resultTokens R ++ rest) =
      (none, resultTokens R ++ rest) := by
  unfold resultTokens
  split
  · rcases hrest.eq_nil_or_cons with rfl | ⟨us, rfl⟩
    · rfl
    · exact Reader.run_takeKeywordGroup_word rfl us
  · exact Reader.run_takeKeywordGroup_word rfl _

/-- In front of anything but another condition. -/
theorem run_takeCondition_append (hrest : (Reader.takeKeywordGroup "if").run rest = (none, rest))
    (C : Text) : Reader.takeCondition.run (conditionTokens C ++ rest) = (C, rest) := by
  unfold conditionTokens
  rw [Reader.takeCondition, Reader.run_bind]
  split
  · next empty =>
    rw [List.nil_append, hrest, empty]
    rfl
  · rw [List.cons_append, List.cons_append, List.nil_append, Reader.run_takeKeywordGroup rfl]
    simp [Bracket.inner]

theorem run_takeCondition (hrest : AtComma rest) (C R : Text) :
    Reader.takeCondition.run (conditionTokens C ++ (resultTokens R ++ rest)) =
      (C, resultTokens R ++ rest) :=
  run_takeCondition_append (run_takeKeywordGroup_result hrest R) C

theorem run_takeTail (hs : s.escape = .all) (hR : R = [] ∨ R.IsName) (hrest : AtComma rest)
    (C : Text) :
    (takeTail s).run (conditionTokens C ++ (resultTokens R ++ rest)) =
      ({ result := R, condition := C }, rest) := by
  rw [takeTail, Reader.run_bind, run_takeCondition hrest, Reader.run_bind]
  unfold resultTokens
  rcases hR with rfl | name
  · rcases hrest.eq_nil_or_cons with rfl | ⟨us, rfl⟩
    · rfl
    · rfl
  · rw [if_neg name.nonempty, List.cons_append, List.cons_append, List.nil_append,
      Reader.run_eatWord_of_isKeyword rfl, Reader.run_bind,
      Reader.run_takeValueD s [] (isValue_nameToken R) (hasText_nameToken name (by simp)),
      value_nameToken hs name]
    rfl

/-! ### Listed functions -/

/-- The text of some functions and its tokens. -/
structure Listed (t : Text) (ts : List Token) : Prop where
  trail : Trail (' ' :: t) ts
  start : ts.foldl Token.addCompact [] = t

namespace Listed

variable {t u : Text} {us : List Token}

theorem spells (h : Listed t ts) : Spells 63 t ts := by
  rcases h.trail.text with ⟨empty, -⟩ | ⟨v, same, spells⟩
  · contradiction
  · rwa [(List.cons.inj same).2]

/-- Two lists with a comma between. -/
theorem append (ht : Listed t ts) (hu : Listed u us) :
    Listed (t ++ ", " ++ u) (ts ++ .word [','] :: us) := by
  have comma (out : Text) : Token.addCompact out (.word [',']) = out ++ [','] := by
    have piece : Token.sourceText [.word [',']] = [','] := rfl
    simp [Token.addCompact, piece]
  have spells : Spells 63 (t ++ ", " ++ u) (ts ++ .word [','] :: us) := by
    simpa using ht.spells.separated (c := ',') (by simp) hu.spells
  refine ⟨⟨.inr ⟨_, rfl, spells⟩, ?_, ?_, ?_⟩, ?_⟩
  · intro out hout
    rw [List.foldl_append, ht.trail.compact out hout, List.foldl_cons, comma,
      hu.trail.compact _ (by simp)]
    simp
  · intro k hk
    rcases List.mem_append.mp hk with hk | hk
    · exact ht.trail.inner k hk
    · rcases List.mem_cons.mp hk with rfl | hk
      · rfl
      · exact hu.trail.inner k hk
  · intro k hk
    rcases List.mem_append.mp hk with hk | hk
    · exact ht.trail.noField k hk
    · rcases List.mem_cons.mp hk with rfl | hk
      · rfl
      · exact hu.trail.noField k hk
  · rw [List.foldl_append, ht.start, List.foldl_cons, comma, hu.trail.compact _ (by simp)]
    simp

end Listed

/-! ### Forms -/

/-- A stats function, the operation it is read back as, and its tokens: a call, and what may
stand between it and the next comma. -/
structure Form (s : Scope) (op back : Operation) (ts : List Token) : Prop where
  enabled : op.disabled = false
  category : op.id.category = .stats
  listed : Listed ((define s op.id).write op []) ts
  call : ∃ A us, ts = .call op.id.keyword A :: us
  read : ∀ rest, AtComma rest → (Query.takeStats? s).run (ts ++ rest) = (some back, rest)

theorem statsFunction?_keyword {id : OperationId} (h : id.category = .stats) :
    OperationId.statsFunction? id.keyword = some id := by
  cases id <;> first | contradiction | decide

theorem call_ne_comma (w A : Text) : w ++ '(' :: (A ++ [')']) ≠ [','] := by
  intro comma
  have : '(' ∈ [','] := by
    rw [← comma]
    simp
  simp at this

/-- A call with clauses behind it, read by the reader of its function. -/
theorem Form.of_call {op : Operation} {A c : Text} {cts : List Token} {params : List Param}
    (enabled : op.disabled = false) (category : op.id.category = .stats) (hA : AllInert A)
    (clauses : Trail c cts)
    (written : (define s op.id).write op [] = op.id.keyword ++ '(' :: (A ++ [')']) ++ c)
    (read : ∀ rest, AtComma rest →
      ((define s op.id).read none).run (.call op.id.keyword A :: (cts ++ rest)) = (params, rest)) :
    Form s op { id := op.id, params } (.call op.id.keyword A :: cts) where
  enabled := enabled
  category := category
  listed := by
    have piece : (Token.call op.id.keyword A).IsPiece (op.id.keyword ++ '(' :: (A ++ [')'])) :=
      ⟨rfl, (Spells.call (Text.isName_keyword op.id) hA).tight, call_ne_comma _ _⟩
    have call : Trail (' ' :: (op.id.keyword ++ '(' :: (A ++ [')']))) [.call op.id.keyword A] :=
      .token (.call (Text.isName_keyword op.id) hA) rfl piece.notComma rfl rfl
    rw [written]
    refine ⟨call.append clauses, ?_⟩
    rw [List.foldl_cons, piece.addCompact_nil, clauses.compact _ piece.tight.nonempty]
  call := ⟨A, cts, rfl⟩
  read rest hrest := by
    have named : Query.statsName? (.call op.id.keyword A) = some op.id :=
      statsFunction?_keyword category
    simp [Query.takeStats?, named, readOperation, read rest hrest]

/-! ### The functions -/

theorem run_takeCall (w A : Text) (ts : List Token) :
    Reader.takeCall.run (.call w A :: ts) =
      (some ⟨w, '(' :: (A ++ [')']), Lexer.tokensWithin 63 A⟩, ts) := rfl

/-- The functions of a list of fields alone. -/
def IsPlain (id : OperationId) : Prop :=
  id.category = .stats ∧ id ∉ limited ∧ id ≠ .quantile ∧ id ≠ .rate

instance (id : OperationId) : Decidable (IsPlain id) :=
  inferInstanceAs (Decidable (id.category = .stats ∧ id ∉ limited ∧ id ≠ .quantile ∧ id ≠ .rate))

theorem define_plain {id : OperationId} (h : IsPlain id) : define s id = Call.definition s id := by
  obtain ⟨category, notLimited, notQuantile, notRate⟩ := h
  cases id <;> first
    | contradiction
    | exact absurd (by decide) notLimited
    | exact absurd rfl notQuantile
    | exact absurd rfl notRate
    | rfl

theorem define_limited {id : OperationId} (h : id ∈ limited) :
    define s id = Call.withLimit s id := by
  simp only [limited, List.mem_cons, List.not_mem_nil, or_false] at h
  rcases h with rfl | rfl | rfl | rfl <;> rfl

theorem startsLimited_call (id : OperationId) (A : Text) (ts : List Token) :
    Call.startsLimited (.call id.keyword A :: ts) = decide (id ∈ limited) := by
  cases id <;> rfl

theorem plain_form (hs : s.escape = .all) {id : OperationId} (hid : IsPlain id) (hF : F.IsContent)
    (hR : R = [] ∨ R.IsName) (hC : AllInert C) :
    Form s { id, params := [.text F, .text R, .text C] }
      { id, params := [.text F, .text R, .text C] }
      (.call id.keyword F :: (conditionTokens C ++ resultTokens R)) := by
  refine Form.of_call rfl hid.1 hF.inert ((trail_condition hC).append (trail_result hs hR)) ?_ ?_
  · have notLimited : limited.contains id = false := by simpa using hid.2.1
    change (define s id).write _ [] = _
    rw [define_plain hid]
    change Call.write s _ [] = _
    rw [Call.write]
    dsimp only
    rw [notLimited]
    simp [afterFunction, tailText, Operation.text, Param.toText]
  · intro rest hrest
    have notLimited : Call.startsLimited (.call id.keyword F ::
        ((conditionTokens C ++ resultTokens R) ++ rest)) = false := by
      rw [startsLimited_call]
      exact decide_eq_false hid.2.1
    change ((define s id).read none).run _ = _
    rw [define_plain hid]
    change (Call.read s).run _ = _
    rw [Call.read, Reader.run_bind, Reader.run_look]
    dsimp only
    rw [notLimited, if_neg (by decide), Reader.run_bind, run_takeCall, Option.map_some,
      Option.getD_some, body_group hF, List.append_assoc, Reader.run_bind,
      run_takeTail hs hR hrest]
    rfl

/-- What follows the limit is no limit. -/
theorem run_eatWord_limit (hrest : AtComma rest) (C R : Text) :
    (Reader.eatWord "limit").run (conditionTokens C ++ (resultTokens R ++ rest)) =
      (false, conditionTokens C ++ (resultTokens R ++ rest)) := by
  unfold conditionTokens resultTokens
  split
  · split
    · rcases hrest.eq_nil_or_cons with rfl | ⟨us, rfl⟩ <;> rfl
    · rfl
  · rfl

/-- The reader goes on with the limit, and with zero where none is written. -/
theorem run_limit {α : Type} (hd : d.IsWhole n) (hrest : AtComma rest) (C R : Text)
    (next : Decimal → Reader α) :
    (do
      if ← Reader.eatWord "limit" then Reader.takeNumber s 0 >>= next
      else pure Decimal.zero >>= next).run
        (numberTokens "limit" n ++ (conditionTokens C ++ (resultTokens R ++ rest))) =
      (next (.ofInt n)).run (conditionTokens C ++ (resultTokens R ++ rest)) := by
  rw [Reader.run_bind]
  unfold numberTokens
  split
  · next zero =>
    rw [List.nil_append, run_eatWord_limit hrest, if_neg (by simp), zero]
    rfl
  · rw [List.cons_append, List.cons_append, List.nil_append, Reader.run_eatWord_of_isKeyword rfl,
      if_pos rfl, Reader.run_bind, Reader.run_takeNumber s 0 hd.fits]

/-- The limit is written as a clause of its own, unless it is zero. -/
theorem limitText_eq (hd : d.IsWhole n) :
    (if (Param.number d).toInt > 0 then " limit " ++ (Param.number d).toText else [] : Text) =
      numberClause " limit " (wholeText? n) := by
  rw [Param.toInt_number hd, Param.toText_number hd.isNatural, wholeText?]
  rcases Nat.eq_zero_or_pos n with rfl | hn
  · rfl
  · rw [if_pos (by omega), if_neg (by omega)]
    rfl

theorem limited_form (hs : s.escape = .all) {id : OperationId} (hid : id ∈ limited)
    (hF : F.IsContent) (hd : d.IsWhole n) (hR : R = [] ∨ R.IsName) (hC : AllInert C) :
    Form s { id, params := [.text F, .number d, .text R, .text C] }
      { id, params := [.text F, .int n, .text R, .text C] }
      (.call id.keyword F ::
        (numberTokens "limit" n ++ (conditionTokens C ++ resultTokens R))) := by
  have category : id.category = .stats := by
    revert id
    decide
  refine Form.of_call rfl category hF.inert
    ((Trail.numberClause (w := "limit") (by decide) n).append
      ((trail_condition hC).append (trail_result hs hR))) ?_ ?_
  · have contains : limited.contains id = true := by simpa using hid
    change (define s id).write _ [] = _
    rw [define_limited hid]
    change Call.write s _ [] = _
    rw [Call.write]
    dsimp only
    rw [contains, if_pos rfl]
    change afterFunction [] (_ ++ (if (Param.number d).toInt > 0 then
      " limit " ++ (Param.number d).toText else []) ++ _) = _
    rw [limitText_eq hd]
    simp [afterFunction, tailText, Operation.text, Param.toText]
  · intro rest hrest
    have starts : Call.startsLimited (.call id.keyword F ::
        ((numberTokens "limit" n ++ (conditionTokens C ++ resultTokens R)) ++ rest)) = true := by
      rw [startsLimited_call]
      exact decide_eq_true hid
    change ((define s id).read none).run _ = _
    rw [define_limited hid]
    change (Call.read s).run _ = _
    rw [Call.read, Reader.run_bind, Reader.run_look]
    dsimp only
    rw [starts, if_pos rfl, Reader.run_bind, run_takeCall, Option.map_some, Option.getD_some,
      body_group hF, List.append_assoc, List.append_assoc]
    refine (run_limit hd hrest C R _).trans ?_
    rw [Reader.run_bind, run_takeTail hs hR hrest]
    rfl

/-! ### Quantile and rate -/

/-- What stands between the brackets of a quantile. -/
def quantileArguments (n : Nat) (F : Text) : Text := "0." ++ natText n ++ clause ", " F

theorem quantileArguments_nil (n : Nat) : quantileArguments n [] = "0." ++ natText n :=
  List.append_nil _

theorem quantileArguments_of_ne (h : F ≠ []) :
    quantileArguments n F = "0." ++ natText n ++ (", " ++ F) := by
  simp [quantileArguments, clause, h]

theorem isName_percentile (n : Nat) : Text.IsName ("0." ++ natText n) where
  nonempty := by simp
  chars c hc := by
    have start : Text.IsName "0." := by decide
    exact (List.mem_append.mp hc).elim (start.chars c) ((Decimal.isName_natText n).chars c)

theorem isContent_quantileArguments (hF : F.IsContent) (n : Nat) :
    (quantileArguments n F).IsContent := by
  have name := isName_percentile n
  have inert : AllInert ("0." ++ natText n) := fun c hc =>
    Lexer.isInert_of_isNameChar (name.chars c hc)
  by_cases empty : F = []
  · rw [empty, quantileArguments_nil]
    exact { name.tight.toTrimmed with inert }
  · rw [quantileArguments_of_ne empty]
    have tight : F.Tight := { hF.toTrimmed with nonempty := empty }
    have whole : Text.Tight ("0." ++ natText n ++ (", " ++ F)) := by
      simpa using name.tight.around ", " tight
    have comma : AllInert ", " := by decide
    refine { whole.toTrimmed with inert := fun c hc => ?_ }
    rcases List.mem_append.mp hc with hc | hc
    · exact inert c hc
    · exact (List.mem_append.mp hc).elim (comma c) (hF.inert c)

theorem percentile_eq (hn : n < 2 ^ 63) : Quantile.percentile ("0." ++ natText n) = n := by
  rw [Quantile.percentile, (isName_percentile n).trim_eq]
  change (Decimal.leadingInt? (natText n)).getD _ = _
  rw [Decimal.leadingInt?_natText hn, Option.getD_some]

/-- The percentile is cut off at the first comma, which may have more of them behind it. -/
theorem arguments_eq (hF : F.IsContent) (hn : n < 2 ^ 63) :
    Quantile.arguments (quantileArguments n F) = ((n : Int), F) := by
  have free : ∀ c ∈ ("0." ++ natText n : Text), (c == ',') = false := by
    intro c hc
    have := Text.ne_of_isNameChar (d := ',') ((isName_percentile n).chars c hc) (by decide)
    simpa using this
  rw [Quantile.arguments]
  by_cases empty : F = []
  · rw [empty, quantileArguments_nil, Text.splitFirst?_eq_none free]
    dsimp only
    rw [percentile_eq hn]
  · rw [quantileArguments_of_ne empty]
    have cut : Text.splitFirst? (· == ',') ("0." ++ natText n ++ (", " ++ F)) =
        some ("0." ++ natText n, ' ' :: F) := Text.splitFirst?_append free rfl _
    rw [cut]
    dsimp only
    have trimmed : Text.trim (' ' :: F) = F := hF.trim_eq
    rw [percentile_eq hn, trimmed]

theorem quantile_form (hs : s.escape = .all) (hd : d.IsWhole n) (hF : F.IsContent)
    (hR : R = [] ∨ R.IsName) (hC : AllInert C) :
    Form s { id := .quantile, params := [.number d, .text F, .text R, .text C] }
      { id := .quantile, params := [.int n, .text F, .text R, .text C] }
      (.call OperationId.quantile.keyword (quantileArguments n F) ::
        (conditionTokens C ++ resultTokens R)) := by
  have content := isContent_quantileArguments hF n
  refine Form.of_call rfl rfl content.inert
    ((trail_condition hC).append (trail_result hs hR)) ?_ ?_
  · have digits : Decimal.intText (n : Int) = natText n := by
      rw [Decimal.intText, if_neg (by omega)]
      rfl
    change Quantile.write s _ [] = _
    rw [Quantile.write]
    change afterFunction [] ("quantile(0." ++ Decimal.intText (Param.number d).toInt ++
      clause ", " F ++ ")" ++ (conditionClause C ++ Pipe.resultClause s R)) =
      "quantile" ++ '(' :: (quantileArguments n F ++ [')']) ++ _
    rw [Param.toInt_number hd, digits]
    simp [afterFunction, quantileArguments]
  · intro rest hrest
    change (Quantile.read s).run _ = _
    rw [Quantile.read, Reader.run_bind, run_takeCall, Option.map_some, Option.getD_some,
      body_group content, arguments_eq hF hd.fits, List.append_assoc]
    dsimp only
    rw [Reader.run_bind, run_takeTail hs hR hrest]
    rfl

theorem rate_form (hs : s.escape = .all) (hR : R = [] ∨ R.IsName) (hC : AllInert C) :
    Form s { id := .rate, params := [.text R, .text C] }
      { id := .rate, params := [.text R, .text C] }
      (.call OperationId.rate.keyword [] :: (conditionTokens C ++ resultTokens R)) := by
  refine Form.of_call rfl rfl (by decide)
    ((trail_condition hC).append (trail_result hs hR)) ?_ ?_
  · rfl
  · intro rest hrest
    change (Rate.read s).run _ = _
    rw [Rate.read, Reader.run_bind, run_takeCall, List.append_assoc, Reader.run_bind,
      run_takeTail hs hR hrest]
    rfl

end Stats

end LogQuery
