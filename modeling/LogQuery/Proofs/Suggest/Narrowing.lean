import LogQuery.Proofs.Filter.Field
import LogQuery.Proofs.Query.First
import LogQuery.Proofs.Quoting.DoubleQuotes
import LogQuery.Suggest.Request

/-!
# Values that contain a text

A request for the values that contain a text sends the text to the store in double quotes, with a
backslash before each of its double quotes. Backslashes of its own are sent as they are. One that
stands alone comes back, for no escape is made of it and the character behind it. A pair of them
comes back as one. One before a double quote takes away the backslash of that quote, which then ends
the text, and one at the end takes away the closing quote, so that the text goes on with what stands
behind it in the query.
-/

namespace LogQuery

open Lexer (Lexes Spells)
open Quoting (Paired between)
open Escape (addAll isEscaped removeAll)

/-! ### Backslashes that stand alone -/

namespace Text

/-- Every backslash stands before a character other than a backslash and a double quote. -/
def slashesAlone : Text → Bool
  | [] => true
  | c :: t => (c != '\\' || t.head?.any fun d => !isEscaped d) && slashesAlone t

variable {t : Text}

theorem slashesAlone_cons {c : Char} (h : c ≠ '\\') (t : Text) :
    slashesAlone (c :: t) = slashesAlone t := by
  simp [slashesAlone, h]

theorem slashesAlone_slash {d : Char} (h : isEscaped d = false) (t : Text) :
    slashesAlone ('\\' :: d :: t) = slashesAlone (d :: t) := by
  simp [slashesAlone, h]

end Text

namespace Escape

open Text (slashesAlone slashesAlone_cons slashesAlone_slash)

variable {p : Text}

/-- Where the backslashes stand alone, escaping the double quotes makes up pairs. -/
theorem paired_addAll (h : slashesAlone p = true) : Paired (addAll '"' p) := by
  induction p with
  | nil => exact .nil
  | cons c p ih =>
      rw [slashesAlone, Bool.and_eq_true] at h
      have rest : Paired (addAll '"' p) := ih h.2
      cases single : isEscaped c with
      | false =>
          have other : c ≠ '"' := by
            rintro rfl
            cases single
          rw [addAll, if_neg other]
          exact .plain single rest
      | true =>
          by_cases mark : c = '"'
          · subst mark
            rw [addAll, if_pos rfl]
            exact .pair '"' rest
          · have slash : c = '\\' := by simpa [isEscaped, mark] using single
            subst slash
            cases p with
            | nil => exact absurd h.1 (by decide)
            | cons d p =>
                have alone : isEscaped d = false := by simpa using h.1
                have other : d ≠ '"' := by
                  rintro rfl
                  cases alone
                rw [addAll, if_neg other] at rest
                rw [addAll, if_neg (by decide), addAll, if_neg other]
                exact .pair d (rest.of_plain alone)

theorem removeAll_slash_cons {c : Char} (h : c = '\\' → p.head? ≠ some '\\') :
    removeAll '\\' (c :: p) = c :: removeAll '\\' p :=
  remove_cons_of_head? .all h

/-- Of backslashes that stand alone none is taken for an escape of another one. -/
theorem removeAll_of_slashesAlone (h : slashesAlone p = true) : removeAll '\\' p = p := by
  induction p with
  | nil => rfl
  | cons c p ih =>
      rw [slashesAlone, Bool.and_eq_true] at h
      have alone : c = '\\' → p.head? ≠ some '\\' := by
        rintro rfl next
        rw [next] at h
        exact absurd h.1 (by decide)
      rw [removeAll_slash_cons alone, ih h.2]

/-- A backslash of a text that is kept by both steps stands alone. -/
theorem exists_alone_of_paired (h : Paired (addAll '"' ('\\' :: p)))
    (kept : removeAll '\\' ('\\' :: p) = '\\' :: p) :
    ∃ d u, p = d :: u ∧ isEscaped d = false ∧ Paired (addAll '"' p) := by
  rw [addAll, if_neg (by decide)] at h
  obtain ⟨e, v, behind, rest⟩ := h.of_slash
  cases p with
  | nil => cases behind
  | cons d u =>
      by_cases mark : d = '"'
      · -- the backslash of the double quote is escaped, and the double quote is left alone
        subst mark
        rw [addAll, if_pos rfl] at behind
        obtain ⟨rfl, rfl⟩ := List.cons.inj behind
        exact absurd rest Quoting.not_paired_mark
      · rw [addAll, if_neg mark] at behind
        obtain ⟨rfl, rfl⟩ := List.cons.inj behind
        by_cases pair : d = '\\'
        · -- of two backslashes one is left
          subst pair
          rw [removeAll, if_pos ⟨rfl, rfl⟩] at kept
          have shorter : (removeAll '\\' u).length ≤ u.length :=
            (remove_sublist .all '\\' u).length_le
          have same := congrArg List.length kept
          simp only [List.length_cons] at same
          omega
        · have single : isEscaped d = false := by simp [isEscaped, mark, pair]
          refine ⟨d, u, rfl, single, ?_⟩
          rw [addAll, if_neg mark]
          exact .plain single rest

/-- A text that is kept by both steps has no backslashes but those that stand alone. -/
theorem slashesAlone_of_paired (h : Paired (addAll '"' p)) (kept : removeAll '\\' p = p) :
    slashesAlone p = true := by
  induction p with
  | nil => rfl
  | cons c p ih =>
      by_cases slash : c = '\\'
      · subst slash
        obtain ⟨d, u, rfl, single, rest⟩ := exists_alone_of_paired h kept
        have other : d ≠ '\\' := by
          rintro rfl
          cases single
        rw [removeAll_slash_cons fun _ => by simpa using other] at kept
        rw [slashesAlone_slash single]
        exact ih rest (List.cons.inj kept).2
      · rw [removeAll_slash_cons fun same => absurd same slash] at kept
        rw [slashesAlone_cons slash]
        refine ih ?_ (List.cons.inj kept).2
        by_cases mark : c = '"'
        · subst mark
          rw [addAll, if_pos rfl] at h
          obtain ⟨d, u, behind, rest⟩ := h.of_slash
          obtain ⟨rfl, rfl⟩ := List.cons.inj behind
          exact rest
        · rw [addAll, if_neg mark] at h
          exact h.of_plain (by simp [isEscaped, slash, mark])

end Escape

/-! ### The filter of a request -/

namespace SuggestRequest

variable {r : SuggestRequest} {f p x : Text}

theorem escapeQuotes_eq (t : Text) : escapeQuotes t = addAll '"' t := by
  induction t with
  | nil => rfl
  | cons c t ih =>
      rw [escapeQuotes] at ih ⊢
      rw [List.flatMap_cons, ih, addAll]
      by_cases mark : c = '"'
      · simp [mark]
      · simp [mark]

/-- The call for values that contain a text. -/
def containsCall (p : Text) : Text :=
  ['i'] ++ '(' :: (between .double (addAll '"' p) ++ [')'])

/-- The filter of a field for values that contain a text, as it is sent to the store. -/
def containsText (f p : Text) : Text := f ++ ':' :: ' ' :: containsCall p

theorem effectiveQuery_eq (values : r.kind = .values) (blank : r.query.allBlank = true)
    (field : r.field = some f) (containing : r.containing = some p) (hp : p ≠ []) :
    r.effectiveQuery = containsText f p := by
  have base : r.base = ['*'] := if_pos blank
  have given : p.isEmpty = false := by simpa using hp
  have narrowed : r.narrowing? = some (f ++ ": i(\"" ++ escapeQuotes p ++ "\")") := by
    simp [narrowing?, values, field, containing, given]
  simp [effectiveQuery, narrowed, base, escapeQuotes_eq, containsText, containsCall, between,
    QuoteMark.char]

/-! ### The tokens of a request -/

theorem tight_containsCall (p : Text) : (containsCall p).Tight := by
  have name : Text.Tight ['i'] := .singleton (by decide)
  have closing : Text.Tight [')'] := .singleton (by decide)
  exact name.around ('(' :: between .double (addAll '"' p)) closing

theorem isPlain_callee : ∀ c ∈ (['i'] : Text), Lexer.isPlain c = true := by simp [Lexer.isPlain]

theorem lexes_fieldSpace (hf : f.IsName) : Lexes 63 (f ++ [':'] ++ [' ']) [.field f] := by
  have field : Lexes 63 (f ++ [':']) [.field f] :=
    .field fun c hc => Lexer.isPlain_of_isNameChar (hf.chars c hc)
  exact field.append .space

/-- Behind the field stand the tokens of the call. -/
theorem tokenize_containsCall (hf : f.IsName) (p : Text) :
    tokenize (containsText f p) =
      .field f :: (Lexer.Scan.start.run (containsCall p)).map
        (Lexer.Lexeme.toToken (Lexer.tokensWithin 63)) := by
  have mark := lexes_fieldSpace hf
  have split : containsText f p = f ++ [':'] ++ [' '] ++ containsCall p := by simp [containsText]
  have tight : (containsText f p).Tight := by
    simpa [containsText] using hf.tight.around [':', ' '] (tight_containsCall p)
  rw [tokenize, Lexer.maxNesting, Lexer.tokensWithin, Lexer.lexemes, tight.trim_eq, split,
    Lexer.Scan.run_append, mark.closed, List.map_append, mark.tokens]
  rfl

/-- The token of a call whose text goes on to its closing quote. -/
def callToken (p : Text) : Token :=
  .bracket ['i'] ('(' :: (between .double (addAll '"' p) ++ [')']))
    [.quote (between .double (addAll '"' p))]

theorem tokenize_paired (hf : f.IsName) (h : Paired (addAll '"' p)) :
    tokenize (containsText f p) = [.field f, callToken p] := by
  have quote : Spells 62 (between .double (addAll '"' p)) _ :=
    .of_lexes (Quoting.tight_between .double _)
      (.of_feed (Lexer.Scan.feed_between (Quoting.between_paired h) []))
  have call : Lexes 63 (containsCall p) _ :=
    Lexes.capture (w := ['i']) (o := '(') (d := ')') rfl rfl isPlain_callee
      (Quoting.passed_paired h).captured
  rw [quote.tokensWithin_eq] at call
  rw [tokenize_containsCall hf, call.map_run]
  rfl

/-- What a scan that starts at a call of this text makes of it: a bracket that starts with the
quote. -/
def ReadsQuote (t q : Text) : Prop :=
  ∃ raw items us, (Lexer.Scan.start.run t).map (Lexer.Lexeme.toToken (Lexer.tokensWithin 63)) =
    .bracket ['i'] raw items :: us ∧ items.head? = some (.quote q)

/-- Up to a double quote outside of pairs the text is quoted, whatever stands behind it. -/
theorem readsQuote_paired (h : Paired x) (u : Text) :
    ReadsQuote (['i'] ++ '(' :: (between .double x ++ u)) (between .double x) := by
  have quote (v : Text) : (Lexer.tokensWithin 63 (between .double x ++ v)).head? =
      some (.quote (between .double x)) :=
    Lexer.head?_tokensWithin_between (Quoting.between_paired h) v
  rcases Lexer.Scan.run_call_passed isPlain_callee (Quoting.passed_paired h) u with
    ⟨a, c, b, -, -, -, run⟩ | run
  · refine ⟨_, _, _, by rw [run]; rfl, ?_⟩
    simpa [Lexer.Lexeme.interior] using quote a
  · refine ⟨_, _, [], by rw [run]; rfl, ?_⟩
    exact quote u

/-- A text with a backslash behind it that escapes its closing quote, up to the bracket. -/
def overrun (x : Text) : Text := x ++ ['\\', '"', ')']

theorem stays_overrun (h : Paired x) : (Within.inside .double).Stays (overrun x) := by
  apply (Within.stays_paired h).append
  rw [Within.after_paired h]
  simp [Within.Stays, Within.step]

/-- The end of the query closes the quote. -/
theorem tokensWithin_overrun (h : Paired x) :
    Lexer.tokensWithin 63 ('"' :: overrun x) = [.quote (between .double (overrun x))] := by
  have tight : Text.Tight ('"' :: overrun x) := by
    have mark : Text.Tight ['"'] := .singleton (by decide)
    have closing : Text.Tight [')'] := .singleton (by decide)
    simpa [overrun] using mark.around (x ++ ['\\', '"']) closing
  have opened : Lexer.Scan.start.run ('"' :: overrun x) =
      Lexer.Scan.run ⟨.quoted .double, ['"']⟩ (x ++ ['\\', '"', ')']) := rfl
  rw [Lexer.tokensWithin, Lexer.lexemes, tight.trim_eq, opened, Lexer.Scan.run_append,
    Quoting.between_paired h]
  simp [Lexer.Scan.run, Lexer.Scan.step, Lexer.Scan.stepQuoted, Lexer.Scan.finish,
    Lexer.Scan.hold, Lexer.Scan.buffer, Lexer.Lexeme.toToken, between, overrun, QuoteMark.char]

/-- A backslash at the end takes the closing quote and the bracket into the text. -/
theorem readsQuote_cut_off (h : Paired x) :
    ReadsQuote (['i'] ++ '(' :: (between .double (x ++ ['\\']) ++ [')']))
      (between .double (overrun x)) := by
  have text : between .double (x ++ ['\\']) ++ [')'] = '"' :: overrun x := by
    simp [between, overrun, QuoteMark.char]
  have stays := stays_overrun h
  rw [text]
  rcases Lexer.Scan.run_call_cases isPlain_callee ('"' :: overrun x) with
    ⟨a, c, b, split, closer, outside, -⟩ | run
  · -- what stands before a closer that ends the bracket leads outside of the quote
    cases a with
    | nil =>
        obtain ⟨rfl, -⟩ := List.cons.inj split
        cases closer
    | cons d a =>
        obtain ⟨rfl, rest⟩ := List.cons.inj split
        rw [rest] at stays
        exact absurd outside stays.after_ne
  · refine ⟨_, _, [], by rw [run]; rfl, ?_⟩
    exact congrArg List.head? (tokensWithin_overrun h)

/-! ### The text that is read -/

theorem unquote_between_addAll (p : Text) :
    Quoting.unquote (between .double (addAll '"' p)) = removeAll '\\' p := by
  have unescaped : removeAll '"' (addAll '"' p) = p := Escape.remove_add .all '"' p
  rw [Quoting.unquote, Quoting.unquoteWith_between]
  exact congrArg (removeAll '\\') unescaped

/-- Neither escapes nor their removal change the number of other characters. -/
theorem unquote_between_ne {k : Char → Bool} (hk : k '\\' = false)
    (h : x.countP k ≠ (addAll '"' p).countP k) : Quoting.unquote (between .double x) ≠ p := by
  have asked : (addAll '"' p).countP k = p.countP k := Escape.countP_add .all hk '"' p
  rintro rfl
  apply h
  rw [asked, Quoting.unquote, Quoting.unquoteWith_between]
  exact (Quoting.countP_unescape .all hk .double x).symm

/-- The call starts with a quote, and its text is the one that was asked for only if the backslashes
of that stand alone. -/
theorem exists_readsQuote (p : Text) : ∃ q, ReadsQuote (containsCall p) q ∧
    (Quoting.unquote q = p → p.slashesAlone = true) := by
  rcases Quoting.paired_cases (addAll '"' p) with whole | ⟨x, y, start, early⟩ | ⟨x, start, cutOff⟩
  · refine ⟨_, readsQuote_paired whole [')'], ?_⟩
    rw [unquote_between_addAll]
    exact Escape.slashesAlone_of_paired whole
  · have text : containsCall p = ['i'] ++ '(' :: (between .double x ++ (y ++ ['"', ')'])) := by
      simp [containsCall, early, between, QuoteMark.char]
    have fewer : x.countP (· == '"') ≠ (addAll '"' p).countP (· == '"') := by
      rw [early, List.countP_append, List.countP_cons_of_pos (by simp)]
      omega
    refine ⟨between .double x, ?_, fun same => absurd same (unquote_between_ne rfl fewer)⟩
    rw [text]
    exact readsQuote_paired start _
  · have more : (overrun x).countP (· == ')') ≠ (addAll '"' p).countP (· == ')') := by
      simp [cutOff, overrun]
    refine ⟨_, ?_, fun same => absurd same (unquote_between_ne rfl more)⟩
    rw [containsCall, cutOff]
    exact readsQuote_cut_off start

/-! ### The operation that is read -/

/-- The filter of a field for values that contain a text in any case. -/
def containsFilter (f p : Text) : Operation :=
  { id := .word, params := [.text f, .text p, .flag true, .flag false] }

theorem startsWord_call (raw : Text) (items ts : List Token) :
    Query.StartsWord false (.bracket ['i'] raw items) ts where
  bracket := rfl
  sign := rfl
  member := rfl
  call := rfl
  compare := ⟨rfl, rfl⟩
  negation := ⟨rfl, rfl⟩
  stats := rfl

/-- What a call that starts with a quote says about a word filter. -/
theorem ofToken_call (s : Scope) (raw q : Text) (more : List Token) :
    Filter.Word.Head.ofToken s (.bracket ['i'] raw (.quote q :: more)) =
      { word := s.unquote q
        anyCase := true
        starred := more.head?.any fun t => t.isWord "*" } := by
  cases more <;> rfl

/-- Behind a field a call that starts with a quote is read as a word filter of its text. -/
theorem readNext_containsCall (s : Scope) (hf : IsFieldName f) (raw q : Text)
    (more us : List Token) :
    (Query.readNext s false).run (.field f :: .bracket ['i'] raw (.quote q :: more) :: us) =
      ([{ id := .word
          params := [.text f, .text (s.unquote q), .flag true,
            .flag (((Reader.eatWord "*").run us).1 || more.head?.any fun t => t.isWord "*")] }],
        ((Reader.eatWord "*").run us).2) := by
  have name : (Reader.takeFieldName s).run
      (.field f :: .bracket ['i'] raw (.quote q :: more) :: us) =
      (some f, .bracket ['i'] raw (.quote q :: more) :: us) := by
    simp [Reader.takeFieldName, hf.trim_eq]
  have unreserved : ∀ g ∈ some f, g ∉ [("_time" : Text), "_stream", "_stream_id"] := by
    simpa using hf.unreserved
  have round := Query.readFilterRound_word (s := s) (some f) unreserved
    (startsWord_call raw (.quote q :: more) us)
  have read : (define s .word).read = Filter.Word.read s := rfl
  rw [Query.readNext, Reader.run_bind, name]
  refine Query.readFilter_run (round.trans ?_)
  simp [readOperation, read, Filter.Word.read, ofToken_call, Scope.fieldParam,
    Scope.fieldOrDefault, hf.nonempty]

theorem isInner_call (hf : f.IsName) (raw : Text) (items : List Token) :
    ∀ t ∈ [Token.field f, .bracket ['i'] raw items], t.isInner = true := by
  have other : f ≠ ['|'] := hf.ne ⟨'|', by simp, by decide⟩
  simp [Token.isInner, Token.hasText, Token.text?, Token.isConnective, Token.word?,
    Token.isComment, other]

/-- The text of a word filter. -/
def HoldsText (t : Text) (op : Operation) : Prop := op.params[1]? = some (.text t)

theorem startsWith_containsCall (hf : IsFieldName f) (raw q : Text) (more : List Token) :
    Query.StartsWith {} [.field f, .bracket ['i'] raw (.quote q :: more)]
      (HoldsText (Quoting.unquote q)) := by
  intro us
  refine ⟨_, _, readNext_containsCall {} hf raw q more us, ?_, ?_, rfl⟩
  · have shorter := ((Reader.eatWord "*").suffix us).length_le
    simp only [List.cons_append, List.nil_append, List.length_cons]
    omega
  · simp [OperationId.category]

/-- A text whose backslashes stand alone is read as it was asked for. -/
theorem readOperations_of_slashesAlone (hf : IsFieldName f) (h : p.slashesAlone = true) :
    Query.readOperations (containsText f p) "_msg" = [containsFilter f p] := by
  have paired := Escape.paired_addAll h
  have text : Quoting.unquote (between .double (addAll '"' p)) = p := by
    rw [unquote_between_addAll, Escape.removeAll_of_slashesAlone h]
  have read : (Query.readNext {} false).run [.field f, callToken p] =
      ([containsFilter f (Quoting.unquote (between .double (addAll '"' p)))], []) :=
    readNext_containsCall {} hf _ _ [] []
  rw [text] at read
  have segment : Query.readOperations (containsText f p) "_msg" =
      Query.readSegment {} false [.field f, callToken p] :=
    Query.operations_segment (by simp) (isInner_call hf.toIsName _ _)
      (tokenize_paired hf.toIsName paired)
  rw [segment]
  exact Query.readSegment_run (by simp) read (by simp [containsFilter, OperationId.category])

/-- Whatever is read starts with a filter for another text where the backslashes do not. -/
theorem slashesAlone_of_readOperations (hf : IsFieldName f)
    (same : Query.readOperations (containsText f p) "_msg" = [containsFilter f p]) :
    p.slashesAlone = true := by
  obtain ⟨q, ⟨raw, items, us, run, quote⟩, alone⟩ := exists_readsQuote p
  obtain ⟨more, rfl⟩ := List.head?_eq_some_iff.mp quote
  have tokens : tokenize (containsText f p) =
      [.field f, .bracket ['i'] raw (.quote q :: more)] ++ us := by
    rw [tokenize_containsCall hf.toIsName, run]
    rfl
  obtain ⟨op, first, text⟩ := Query.exists_head?_operations_read tokens (by simp)
    (isInner_call hf.toIsName raw _) (startsWith_containsCall hf raw q more)
  have head : (Query.readOperations (containsText f p) "_msg").head? = some op := first
  rw [same] at head
  cases head
  exact alone (by simpa [HoldsText, containsFilter] using text.symm)

/-- The values that contain a text are asked for exactly when every backslash of the text stands
before a character other than a backslash and a double quote. -/
theorem readOperations_effectiveQuery_iff (values : r.kind = .values)
    (blank : r.query.allBlank = true) (field : r.field = some f) (hf : IsFieldName f)
    (containing : r.containing = some p) (hp : p ≠ []) :
    Query.readOperations r.effectiveQuery "_msg" = [containsFilter f p] ↔
      p.slashesAlone = true := by
  rw [effectiveQuery_eq values blank field containing hp]
  exact ⟨slashesAlone_of_readOperations hf, readOperations_of_slashesAlone hf⟩

/-- Double quotes, brackets, spaces at the ends, and backslashes before other characters. -/
theorem readOperations_effectiveQuery_backslashes :
    let p : Text := " \"C:\\logs (a) \") [\\d+\\) "
    let r : SuggestRequest :=
      { kind := .values, query := " \n", field := some "level", containing := some p }
    (r.query.allBlank = true ∧ IsFieldName "level" ∧ p ≠ []) ∧
      Query.readOperations r.effectiveQuery "_msg" = [containsFilter "level" p] := by
  intro p r
  have blank : r.query.allBlank = true := by decide
  have field : IsFieldName "level" :=
    { (by decide : Text.IsName "level") with unreserved := by decide }
  have some : p ≠ [] := by decide
  have alone : p.slashesAlone = true := by decide
  exact ⟨⟨blank, field, some⟩,
    (readOperations_effectiveQuery_iff rfl blank rfl field rfl some).mpr alone⟩

/-- A backslash at the end takes the closing quote and the bracket into the text. -/
theorem readOperations_effectiveQuery_ne :
    let r : SuggestRequest :=
      { kind := .values, field := some "level", containing := some ['\\'] }
    r.effectiveQuery = ("level: i(\"\\\")" : Text) ∧
      Query.readOperations r.effectiveQuery "_msg" = [containsFilter "level" "\")"] ∧
      Query.readOperations r.effectiveQuery "_msg" ≠ [containsFilter "level" ['\\']] := by
  exact ⟨by decide, by decide, by decide⟩

end SuggestRequest

end LogQuery
