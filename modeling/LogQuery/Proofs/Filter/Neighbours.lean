import LogQuery.Proofs.Filter.LoneWord

/-!
# Words side by side

Two word filters stand next to each other with a space between, and white space is no token. So
what the reader makes of the first may depend on the second. A star behind a word is a mark of the
word, and a quote between two stars is a substring. A variable that ends in a backslash takes the
space and the word behind it. Nothing else happens to words that are read back on their own.
-/

namespace LogQuery

open Lexer (Spells)
open Query (Calm OpensWord)

/-- The second word filter does not stand on its own behind the first: it is a star and the first
one takes it, or it is a quoted text with a star and stands behind one, or the first ends in a
backslash and both are one word. -/
def Merges (v : Text) (starred : Bool) (w : Text) (starred' : Bool) : Prop :=
  (w = ['*'] ∧ ¬(starred = true ∧ InQuotes v)) ∨
    (v = ['*'] ∧ InQuotes w ∧ w ≠ [] ∧ starred' = true) ∨
      (¬InQuotes v ∧ starred = false ∧ v.endsInEscape = true ∧ ¬InQuotes w)

instance (v : Text) (starred : Bool) (w : Text) (starred' : Bool) :
    Decidable (Merges v starred w starred') :=
  inferInstanceAs (Decidable (_ ∨ _))

variable {v w : Text} {starred starred' : Bool} {rest ts us : List Token}

/-! ### One filter and what follows it -/

/-- Tokens that leave a word filter alone. -/
structure Follows (w : Text) (starred : Bool) (rest : List Token) : Prop where
  field : ∀ t ∈ rest.head?, t ≠ .field []
  bracket : ∀ t ∈ rest, t.isBracket = false
  star : rest.head? = some (.word ['*']) → starred = true ∧ InQuotes w
  substring : w = ['*'] → Filter.Substring.startsHere (.word ['*'] :: rest) = false

/-- The tokens of a word filter, and how they are read. -/
structure WordTokens (w : Text) (starred : Bool) (ts : List Token) : Prop where
  tight : (wordText w starred).Tight
  tokens : tokenize (wordText w starred) = ts
  nonempty : ts ≠ []
  inner : ∀ t ∈ ts, t.isInner = true
  field : ∀ t ∈ ts.head?, t ≠ .field []
  bracket : ∀ t ∈ ts, t.isBracket = false
  star : ts.head? = some (.word ['*']) → w = ['*']
  substring : Filter.Substring.startsHere (.word ['*'] :: ts) = true →
    InQuotes w ∧ w ≠ [] ∧ starred = true
  /-- A space ends the last one, unless it is escaped. -/
  closed : InQuotes w ∨ starred = true ∨ w.endsInEscape = false →
    Spells 63 (wordText w starred) ts
  read : ∀ rest, Follows w starred rest → ∀ ops,
    (Query.readSegmentRound {} false ops).run (ts ++ rest) =
      (.more (ops ++ [starredFilter w starred]), rest)
  /-- A star behind it makes another filter of it. -/
  taken : ¬(starred = true ∧ InQuotes w) → ∃ op rest, op ≠ starredFilter w starred ∧
    (Query.readSegmentRound {} false []).run (ts ++ [.word ['*']]) = (.more [op], rest)

theorem run_quote {q : Text} (quotes : Quotes q w) (starred : Bool)
    (h : rest.head? = some (.word ['*']) → starred = true) :
    (readOperation {} .word none).run (.quote q :: (starTokens starred ++ rest)) =
      (starredFilter w starred, rest) := by
  have unquoted : Scope.unquote {} q = w := quotes.unquote_eq rfl
  have star : (Reader.eatWord ['*']).run (starTokens starred ++ rest) = (starred, rest) := by
    cases starred with
    | true => rfl
    | false => exact Query.run_eatWord_noStar fun star => absurd (h star) (by simp)
  simp [readOperation, define, Filter.Word.definition, Filter.Word.read,
    Filter.Word.Head.ofToken, star, Scope.fieldParam, Scope.fieldOrDefault, starredFilter]
  exact unquoted

theorem spells_quoted (quoted : InQuotes w) {q : Text} (quotes : Quotes q w)
    (written : Scope.quoteOrEmpty {} w = q) (starred : Bool) :
    Spells 63 (wordText w starred) (.quote q :: starTokens starred) := by
  rw [wordText_inQuotes quoted, written]
  exact spells_starred quotes starred

theorem wordTokens_quoted (quoted : InQuotes w) {q : Text} (quotes : Quotes q w)
    (written : Scope.quoteOrEmpty {} w = q) (starred : Bool) :
    WordTokens w starred (.quote q :: starTokens starred) := by
  have spells := spells_quoted quoted quotes written starred
  have opens (rest : List Token) (h : ∀ t ∈ rest.head?, t ≠ .field []) :
      OpensWord (.quote q) (starTokens starred ++ rest) := by
    apply Query.opensWord_quote
    cases starred with
    | false => exact h
    | true => simp [starTokens]
  exact
    { tight := spells.tight
      tokens := tokenize_of_spells spells
      nonempty := by simp
      inner := by simpa [quotes.isInner] using isInner_starTokens starred
      field := by simp
      bracket := by cases starred <;> simp [starTokens, Token.isBracket]
      star := by simp
      substring := by
        have unquoted : Quoting.unquote q = w := quotes.value
        cases starred with
        | false => simp [Filter.Substring.startsHere, starTokens]
        | true =>
            intro starts
            refine ⟨quoted, ?_, rfl⟩
            rintro rfl
            simp [Filter.Substring.startsHere, starTokens, unquoted] at starts
      closed := fun _ => spells
      read := by
        intro rest follows ops
        have run := run_quote quotes starred fun star => (follows.star star).1
        rw [List.cons_append, opens rest follows.field, run]
      taken := by
        intro free
        cases starred with
        | true => exact absurd ⟨rfl, quoted⟩ free
        | false =>
            have run : (readOperation {} .word none).run [.quote q, .word ['*']] =
                (starredFilter w true, []) := run_quote quotes true (by simp)
            refine ⟨starredFilter w true, [], by simp [starredFilter], ?_⟩
            have opened : OpensWord (.quote q) [.word ['*']] := Query.opensWord_quote q (by simp)
            have tokens : (.quote q :: starTokens false) ++ [.word ['*']] =
                [.quote q, .word ['*']] := rfl
            rw [tokens, opened [], run, List.nil_append] }

/-- Only the star is written as a star. -/
theorem eq_star_of_bareText (nonempty : w ≠ []) (h : bareText w starred = ['*']) : w = ['*'] := by
  cases starred with
  | false => rwa [bareText, flagClause, if_neg (by simp), List.append_nil] at h
  | true =>
      have empty : w ++ ['*'] = ['*'] := h
      exact absurd (by simpa using empty) nonempty

theorem endsInEscape_bareText (h : starred = true ∨ w.endsInEscape = false) :
    (bareText w starred).endsInEscape = false := by
  rcases h with rfl | ends
  · exact Text.endsInEscape_concat (by decide) w
  · cases starred with
    | false => rwa [bareText, flagClause, if_neg (by simp), List.append_nil]
    | true => exact Text.endsInEscape_concat (by decide) w

theorem BareForm.calm (h : BareForm w starred) (nonempty : w ≠ [])
    (field : ∀ t ∈ rest.head?, t ≠ .field []) (bracket : ∀ t ∈ rest, t.isBracket = false)
    (substring : w = ['*'] → Filter.Substring.startsHere (.word ['*'] :: rest) = false) :
    Calm (bareText w starred) rest := by
  refine h.nameless.calm field bracket fun star => ?_
  rw [star]
  exact substring (eq_star_of_bareText nonempty star)

theorem BareForm.wordTokens (h : BareForm w starred) (bare : ¬InQuotes w) :
    WordTokens w starred [.word (bareText w starred)] := by
  have text := wordText_bare bare starred
  obtain ⟨m, unbroken⟩ := h.unbroken
  have nonempty : w ≠ [] := fun empty => bare (.inl empty)
  exact
    { tight := text ▸ h.tight
      tokens := text ▸ unbroken.tokenize_eq h.tight
      nonempty := by simp
      inner := by simpa using h.nameless.isInner
      field := by simp
      bracket := by simp [Token.isBracket]
      star := fun star => eq_star_of_bareText nonempty (Token.word.inj (Option.some.inj star))
      substring := by simp [Filter.Substring.startsHere]
      closed := by
        intro ends
        have mode := unbroken.mode_eq
        rw [endsInEscape_bareText (ends.resolve_left bare)] at mode
        subst mode
        exact text ▸ unbroken.spells h.tight 63
      read := by
        intro rest follows ops
        have noStar : rest.head? ≠ some (.word ['*']) := fun star => bare (follows.star star).2
        rw [List.singleton_append,
          h.opens rest (h.calm nonempty follows.field follows.bracket follows.substring),
          h.run_word noStar]
      taken := by
        intro _
        refine ⟨starredFilter (bareText w starred) true, [], ?_, ?_⟩
        · intro same
          have word : bareText w starred = w := congrArg (Operation.text · 1) same
          have flag : true = starred := congrArg (Operation.flag · 3) same
          rw [← flag] at word
          simp [bareText, flagClause] at word
        · have opened := h.opens [.word ['*']]
            (h.calm nonempty (by simp) (by simp [Token.isBracket]) fun _ => rfl) []
          rwa [Query.run_word_star] at opened }

theorem exists_wordTokens (h : RoundTrips [starredFilter w starred]) :
    ∃ ts, WordTokens w starred ts := by
  by_cases quoted : InQuotes w
  · have quotable := isQuotable_of_roundTrips quoted h
    obtain ⟨q, quotes, written⟩ := quotable.exists_quotes (s := {}) rfl
    exact ⟨_, wordTokens_quoted quoted quotes written starred⟩
  · exact ⟨_, (BareForm.of_roundTrips quoted h).wordTokens quoted⟩

theorem WordTokens.eq (h : WordTokens w starred ts) (h' : WordTokens w starred us) : ts = us :=
  h.tokens.symm.trans h'.tokens

theorem WordTokens.eq_star (h : WordTokens ['*'] false ts) : ts = [.word ['*']] :=
  h.tokens.symm.trans (tokenize_of_spells .star)

/-! ### Two filters -/

theorem writeOperations_pair (tv : (wordText v starred).Tight) (tw : (wordText w starred').Tight) :
    writeOperations [starredFilter v starred, starredFilter w starred'] =
      wordText v starred ++ ' ' :: wordText w starred' := by
  let first : Writer.State :=
    { out := wordText v starred, previous := some (define {} .word) }
  have one : ({} : Writer).step { out := [] } (starredFilter v starred) = first := by
    rw [Writer.step_enabled rfl rfl, Writer.append_filterLike (.inl rfl) (by simp) (by simp)]
    rfl
  have two : ({} : Writer).step first (starredFilter w starred') =
      { out := wordText v starred ++ ' ' :: wordText w starred',
        previous := some (define {} .word) } := by
    rw [Writer.step_enabled rfl rfl, Writer.append_filterLike (.inl rfl)
      (by rintro _ ⟨⟩; rfl) (by simp [first])]
    exact congrArg (fun out => Writer.State.mk out _) (Writer.joinSpace_of_tight tv _)
  have tight : (wordText v starred ++ ' ' :: wordText w starred').Tight := by
    simpa using tv.around [' '] tw
  change (({} : Writer).step (({} : Writer).step { out := [] } (starredFilter v starred))
    (starredFilter w starred')).out.trim = _
  rw [one, two]
  exact tight.trim_eq

/-- A space behind tokens that it ends. -/
theorem tokenize_space {t u : Text} (h : Spells 63 t ts) (hu : u.Tight) :
    tokenize (t ++ ' ' :: u) = ts ++ tokenize u := by
  have tight : (t ++ ' ' :: u).Tight := by simpa using h.tight.around [' '] hu
  have split : t ++ ' ' :: u = t ++ [' '] ++ u := by simp
  rw [tokenize, Lexer.maxNesting, Lexer.tokensWithin, Lexer.lexemes, tight.trim_eq, split,
    Lexer.Scan.run_append, h.lexes.closed, List.map_append, h.lexes.tokens, tokenize,
    Lexer.maxNesting, Lexer.tokensWithin, Lexer.lexemes, hu.trim_eq]

theorem readSegment_pair (hv : WordTokens v starred ts) (hw : WordTokens w starred' us)
    (follows : Follows v starred us) :
    Query.readSegment {} false (ts ++ us) =
      [starredFilter v starred, starredFilter w starred'] := by
  have first := hv.read us follows []
  have nothing : Follows w starred' [] := ⟨by simp, by simp, by simp, fun _ => rfl⟩
  have second := hw.read [] nothing [starredFilter v starred]
  rw [List.append_nil] at second
  have iterates : Reader.Iterates (Query.readSegmentRound {} false) [] (ts ++ us)
      [starredFilter v starred, starredFilter w starred'] [] := by
    have count := List.length_pos_iff.mpr hv.nonempty
    refine .more first (by rw [List.length_append]; omega) (.more second ?_ ?_)
    · exact List.length_pos_iff.mpr hw.nonempty
    · exact .done (Query.readSegmentRound_nil false _)
  rw [Query.readSegment, iterates.run_loop]

/-! ### What the pair is read as -/

theorem Follows.of_not_merges (hw : WordTokens w starred' us) (h : ¬Merges v starred w starred') :
    Follows v starred us where
  field := hw.field
  bracket := hw.bracket
  star := fun star => by_contra fun free => h (.inl ⟨hw.star star, free⟩)
  substring := by
    intro alone
    rw [Bool.eq_false_iff]
    exact fun starts => h (.inr (.inl ⟨alone, hw.substring starts⟩))

theorem readOperations_pair (hv : WordTokens v starred ts) (hw : WordTokens w starred' us)
    (tokens : tokenize (wordText v starred ++ ' ' :: wordText w starred') = ts ++ us) :
    Query.readOperations (writeOperations [starredFilter v starred, starredFilter w starred'])
      "_msg" = Query.readSegment {} false (ts ++ us) := by
  rw [writeOperations_pair hv.tight hw.tight]
  refine Query.operations_segment (by simp [hv.nonempty]) (fun t ht => ?_) tokens
  exact (List.mem_append.mp ht).elim (hv.inner t) (hw.inner t)

theorem exists_quote_between (h : IsQuotable w) :
    ∃ m u, Scope.quoteOrEmpty {} w = Quoting.between m u ∧ Quoting.Between m u := by
  cases h with
  | empty => exact ⟨.double, [], rfl, fun held => rfl⟩
  | text must _ _ lacksMark =>
      obtain ⟨m, u, enclosed, between⟩ := Quoting.exists_between lacksMark
      refine ⟨m, u, ?_, between⟩
      have nonempty := IsQuotable.nonempty_of_mustQuote must
      rw [← enclosed]
      simp [Scope.quoteOrEmpty, nonempty, Scope.quote, Quoting.quoteWith, must]

/-- A quote ends the word before it, also where the space between is escaped. -/
theorem spells_word_quoted (form : BareForm v false) (escape : v.endsInEscape = true)
    (quoted : InQuotes w) (quotable : IsQuotable w) (starred : Bool) :
    Spells 63 (bareText v false ++ ' ' :: wordText w starred)
      ([.word (bareText v false)] ++ .quote (Scope.quoteOrEmpty {} w) :: starTokens starred) := by
  obtain ⟨q, quotes, quoted'⟩ := quotable.exists_quotes (s := {}) rfl
  obtain ⟨m, u, written, between⟩ := exists_quote_between quotable
  obtain rfl : q = Quoting.between m u := quoted'.symm.trans written
  have quote := (form.unbroken_escaped escape).lexes_quote form.tight between 63
  rw [wordText_inQuotes quoted, written]
  cases starred with
  | false =>
      have tight := form.tight.around [' '] quotes.tight
      simpa [flagClause, starTokens] using Spells.of_lexes (by simpa using tight) quote
  | true =>
      have first : ∀ c ∈ (bareText v false ++ ' ' :: Quoting.between m u).head?,
          Text.isBlank c = false := by
        rw [List.head?_append_of_ne_nil _ form.tight.nonempty]
        exact form.tight.first
      have starred := Spells.append_left quote first .star
      simpa [flagClause, starTokens] using starred

/-- The tokens of both filters, one behind the other, unless both are one word. -/
theorem exists_tokens_pair (hv : RoundTrips [starredFilter v starred])
    (hw : RoundTrips [starredFilter w starred'])
    (apart : ¬(¬InQuotes v ∧ starred = false ∧ v.endsInEscape = true ∧ ¬InQuotes w)) :
    ∃ ts us, WordTokens v starred ts ∧ WordTokens w starred' us ∧
      tokenize (wordText v starred ++ ' ' :: wordText w starred') = ts ++ us := by
  by_cases closed : InQuotes v ∨ starred = true ∨ v.endsInEscape = false
  · obtain ⟨ts, first⟩ := exists_wordTokens hv
    obtain ⟨us, second⟩ := exists_wordTokens hw
    refine ⟨ts, us, first, second, ?_⟩
    rw [tokenize_space (first.closed closed) second.tight, second.tokens]
  · simp only [not_or, Bool.not_eq_true, Bool.not_eq_false] at closed
    obtain ⟨bare, rfl, escape⟩ := closed
    have quoted : InQuotes w := by_contra fun other => apart ⟨bare, rfl, escape, other⟩
    have quotable := isQuotable_of_roundTrips quoted hw
    have form := BareForm.of_roundTrips bare hv
    obtain ⟨q, quotes, written⟩ := quotable.exists_quotes (s := {}) rfl
    refine ⟨_, _, form.wordTokens bare, wordTokens_quoted quoted quotes written starred', ?_⟩
    rw [wordText_bare bare, ← written]
    exact tokenize_of_spells (spells_word_quoted form escape quoted quotable starred')

theorem exists_run_substring {s : Scope} (hs : s.escape = .all) {q : Text} (quotes : Quotes q w) :
    ∃ op, op.id = .substring ∧
      (readOperation s .substring none).run [.word ['*'], .quote q, .word ['*']] = (op, []) := by
  have notComma : (Token.quote q).hasText [','] = false := by
    simpa [Token.hasText, Token.text?] using quotes.ne_separator (c := ',') (by simp)
  have value : (Reader.takeValueD s []).run [.quote q, .word ['*']] = (w, [.word ['*']]) := by
    rw [Reader.run_takeValueD s [] rfl notComma, quotes.value_eq hs]
  have star : (Reader.eatWord ['*']).run [.word ['*']] = (true, []) := rfl
  refine ⟨{ id := .substring, params := [s.fieldParam none, .text w] }, rfl, ?_⟩
  simp [readOperation, define, Filter.Substring.definition, Filter.Substring.read, Token.word?,
    value, star]

/-- Behind a star, a quote with a star is a substring. -/
theorem exists_head_substring {q : Text} (quotes : Quotes q w) (nonempty : w ≠ []) :
    ∃ op, op.id = .substring ∧
      (Query.readSegment {} false [.word ['*'], .quote q, .word ['*']]).head? = some op := by
  let ts : List Token := [.word ['*'], .quote q, .word ['*']]
  have starts : Filter.Substring.startsHere ts = true := by
    have unquoted : Quoting.unquote q = w := quotes.value
    simp [ts, Filter.Substring.startsHere, unquoted, nonempty, Token.isWord, Token.word?]
  have sign : Query.signFilter? ts = some .substring := by
    have other (sign : Char) (h : sign ≠ '*') : (Token.word ['*']).isWord [sign] = false := by
      simpa [Token.isWord, Token.word?] using h.symm
    have equal := other '=' (by decide)
    have bang := other '!' (by decide)
    simp only [Query.signFilter?, ts]
    rw [if_neg (by decide), if_neg (by simp [equal, bang]), if_pos starts]
  obtain ⟨op, id, read⟩ := exists_run_substring (s := {}) rfl quotes
  have filter : (Query.readFilterRound {} false none []).run ts =
      (.done [op], []) := by
    rw [Query.readFilterRound_sign .substring (by simp) rfl sign, read]
  have next : (Query.readNext {} false).run (ts ++ []) = ([op], []) := by
    have pipe : (Query.readPipe? {}).run ts = (none, ts) := rfl
    rw [List.append_nil, Query.readNext, Reader.run_bind,
      Reader.run_takeFieldName_none rfl (by simp)]
    dsimp only
    rw [if_pos (by simp), Reader.run_bind, pipe]
    exact Query.readFilter_run filter
  have head := Query.head?_readSegment (by simp [ts]) next (by rw [id]; decide)
  rw [List.append_nil] at head
  exact ⟨op, id, head⟩

/-- The first filter, its escaped space and the second are read as one word. -/
theorem not_roundTrips_joined (hv : BareForm v false) (hw : BareForm w starred')
    (bare : ¬InQuotes v) (bare' : ¬InQuotes w) (escape : v.endsInEscape = true) :
    ¬RoundTrips [starredFilter v false, starredFilter w starred'] := by
  obtain ⟨m, unbroken⟩ := hw.unbroken
  let joined := bareText v false ++ ' ' :: bareText w starred'
  have tight : joined.Tight := by simpa [joined] using hv.tight.around [' '] hw.tight
  have tokens : tokenize joined = [.word joined] :=
    ((hv.unbroken_escaped escape).join unbroken).tokenize_eq tight
  have nameless : Nameless joined := by
    refine hv.nameless.append_space ?_ _
    intro star
    have whole : bareText v false = v := List.append_nil v
    rw [← whole, star] at escape
    contradiction
  intro h
  rw [RoundTrips, writeOperations_pair (wordText_bare bare false ▸ hv.tight)
    (wordText_bare bare' starred' ▸ hw.tight)] at h
  have text : wordText v false ++ ' ' :: wordText w starred' = joined := by
    rw [wordText_bare bare, wordText_bare bare']
  rw [text, readOperations_word nameless tokens] at h
  rcases nameless.opensWord_or with opens | other
  · have noStar : ([] : List Token).head? ≠ some (.word ['*']) := by simp
    rw [Query.readSegment_of_opensWord (opens [] nameless.calm_nil)
      (Query.run_word joined noStar)] at h
    simpa using congrArg List.length h
  · exact other (starredFilter v false) (h ▸ List.mem_cons_self) rfl

theorem roundTrips_starredFilters_iff (hv : RoundTrips [starredFilter v starred])
    (hw : RoundTrips [starredFilter w starred']) :
    RoundTrips [starredFilter v starred, starredFilter w starred'] ↔
      ¬Merges v starred w starred' := by
  by_cases joined : ¬InQuotes v ∧ starred = false ∧ v.endsInEscape = true ∧ ¬InQuotes w
  · have merges : Merges v starred w starred' := .inr (.inr joined)
    obtain ⟨bare, rfl, escape, bare'⟩ := joined
    exact iff_of_false (not_roundTrips_joined (.of_roundTrips bare hv) (.of_roundTrips bare' hw)
      bare bare' escape) (not_not_intro merges)
  obtain ⟨ts, us, first, second, tokens⟩ := exists_tokens_pair hv hw joined
  rw [RoundTrips, readOperations_pair first second tokens]
  refine ⟨?_, fun apart => readSegment_pair first second (.of_not_merges second apart)⟩
  rintro read (⟨rfl, free⟩ | ⟨rfl, quoted, nonempty, rfl⟩ | both)
  · obtain rfl := starred_eq_of_roundTrips hw
    obtain rfl := second.eq_star
    obtain ⟨op, rest, other, round⟩ := first.taken free
    have head := Query.head?_readSegment_of_round round
    rw [read] at head
    exact other (Option.some.inj head).symm
  · obtain rfl := starred_eq_of_roundTrips hv
    obtain rfl := first.eq_star
    have quotable := isQuotable_of_roundTrips quoted hw
    obtain ⟨q, quotes, written⟩ := quotable.exists_quotes (s := {}) rfl
    obtain rfl := second.eq (wordTokens_quoted quoted quotes written true)
    obtain ⟨op, substring, head⟩ := exists_head_substring quotes nonempty
    have same : starredFilter ['*'] false = op := by
      have pair : (Query.readSegment {} false [.word ['*'], .quote q, .word ['*']]) =
        [starredFilter ['*'] false, starredFilter w true] := read
      rw [pair] at head
      exact Option.some.inj head
    have word : OperationId.word = .substring := (congrArg Operation.id same).trans substring
    exact absurd word (by decide)
  · exact joined both

/-- Words of the default field that are read back on their own are read back side by side, unless
one of them merges with the other. -/
theorem roundTrips_pair_iff {a b : Operation} (ha : IsLoneWord a) (hb : IsLoneWord b)
    (first : RoundTrips [a]) (second : RoundTrips [b]) :
    RoundTrips [a, b] ↔ ¬Merges (a.text 1) (a.flag 3) (b.text 1) (b.flag 3) := by
  have words := And.intro (ha.eq_starredFilter first) (hb.eq_starredFilter second)
  generalize a.text 1 = v, a.flag 3 = starred, b.text 1 = w, b.flag 3 = starred' at words ⊢
  obtain ⟨rfl, rfl⟩ := words
  exact roundTrips_starredFilters_iff first second

/-- The space behind the first word is escaped, and the quote of the second ends that word. -/
theorem roundTrips_variable_quote :
    let a := starredFilter "$a\\" false
    let b := starredFilter "b c" true
    RoundTrips [a] ∧ RoundTrips [b] ∧ RoundTrips [a, b] := by
  intro a b
  have alone : RoundTrips [a] := by decide
  have quote : RoundTrips [b] := by decide
  have apart : ¬Merges (a.text 1) (a.flag 3) (b.text 1) (b.flag 3) := by decide
  exact ⟨alone, quote,
    (roundTrips_pair_iff ⟨rfl, rfl, rfl⟩ ⟨rfl, rfl, rfl⟩ alone quote).mpr apart⟩

/-- A star on its own is read back, but not behind a word. -/
theorem not_roundTrips_word_star :
    RoundTrips [starredFilter "x" false] ∧ RoundTrips [starredFilter "*" false] ∧
      ¬RoundTrips [starredFilter "x" false, starredFilter "*" false] := by
  decide

end LogQuery
