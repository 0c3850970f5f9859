import LogQuery.Proofs.Filter.BareWord
import LogQuery.Proofs.Query.Progress

/-!
# Words that are no name

A word that no sign starts and that no operation is named after is read as a word filter whatever
stands behind it, if that is no bracket and no field. The name of a pipe may be read as a word
too: whether it is, the word alone decides.
-/

namespace LogQuery

/-- The filter of the default field for a word, or for all words that start with it. -/
def starredFilter (w : Text) (starred : Bool) : Operation :=
  { id := .word, params := [.text "_msg", .text w, .flag false, .flag starred] }

variable {x : Text} {t : Token} {rest : List Token}

/-! ### Reading a word -/

namespace Query

theorem run_word_star (x : Text) (rest : List Token) :
    (readOperation {} .word none).run (.word x :: .word ['*'] :: rest) =
      (starredFilter x true, rest) := by
  rfl

theorem run_eatWord_noStar (h : rest.head? ≠ some (.word ['*'])) :
    (Reader.eatWord ['*']).run rest = (false, rest) := by
  apply Reader.run_eatWord_of_head?
  intro t ht
  cases t with
  | word w =>
      rw [Token.isKeyword_word]
      refine Text.sameFold_star fun star => h ?_
      rw [Option.mem_def.mp ht, star]
  | _ => rfl

theorem run_word (x : Text) (h : rest.head? ≠ some (.word ['*'])) :
    (readOperation {} .word none).run (.word x :: rest) =
      (starredFilter (if Filter.Word.endsInStar x then x.dropLast else x)
        (Filter.Word.endsInStar x), rest) := by
  have noStar := run_eatWord_noStar h
  simp [readOperation, define, Filter.Word.definition, Filter.Word.read,
    Filter.Word.Head.ofToken, noStar, Scope.fieldParam, Scope.fieldOrDefault, starredFilter]

/-- An operation that takes no token gives way to a word filter. -/
theorem readSegmentRound_stuck {s : Scope} {onlyFilters : Bool} {ops : List Operation}
    {op : Operation} {ts : List Token} (hne : ts ≠ [])
    (next : (readNext s onlyFilters).run ts = ([op], ts)) :
    (readSegmentRound s onlyFilters ops).run ts =
      (.more (ops ++ [((readOperation s .word none).run ts).1]),
        ((readOperation s .word none).run ts).2) := by
  simp [readSegmentRound, next, hne]

/-- One round of a segment reads a word filter from the token on. -/
def OpensWord (t : Token) (rest : List Token) : Prop :=
  ∀ ops, (readSegmentRound {} false ops).run (t :: rest) =
    (.more (ops ++ [((readOperation {} .word none).run (t :: rest)).1]),
      ((readOperation {} .word none).run (t :: rest)).2)

theorem opensWord_of_startsWord
    (name : (Reader.takeFieldName {}).run (t :: rest) = (none, t :: rest))
    (pipe : (readPipe? {}).run (t :: rest) = (none, t :: rest))
    (starts : StartsWord false t rest) : OpensWord t rest := by
  intro ops
  have shorter := takes_readOperation_word {} none (t :: rest) (by simp)
  obtain ⟨taken, split⟩ := (readOperation {} .word none).suffix (t :: rest)
  rcases read : (readOperation {} .word none).run (t :: rest) with ⟨op, left⟩
  rw [read] at shorter split
  have notStats : op.id.category ≠ .stats := by
    have id : OperationId.word = op.id := congrArg (fun found => found.1.id) read
    rw [← id]
    decide
  have next : (readNext {} false).run (taken ++ left) = ([op], left) := by
    rw [split, readNext, Reader.run_bind, name]
    dsimp only
    rw [if_pos (by simp), Reader.run_bind, pipe]
    have filter := readFilterRound_word (s := {}) none (by simp) starts
    rw [read] at filter
    exact readFilter_run filter
  have nonempty : taken ≠ [] := by
    rintro rfl
    rw [← split] at shorter
    exact Nat.lt_irrefl _ shorter
  have round : (readSegmentRound {} false ops).run (taken ++ left) = (.more (ops ++ [op]), left) :=
    readSegmentRound_run nonempty next notStats
  rwa [split] at round

theorem readSegment_of_opensWord {op : Operation} (h : OpensWord t [])
    (read : (readOperation {} .word none).run [t] = (op, [])) :
    readSegment {} false [t] = [op] := by
  have round := h []
  rw [read, List.nil_append] at round
  have iterates : Reader.Iterates (readSegmentRound {} false) [] [t] [op] [] :=
    .more round (by simp) (.done (readSegmentRound_nil false _))
  rw [readSegment, iterates.run_loop]

theorem opensWord_quote (q : Text) (h : ∀ t ∈ rest.head?, t ≠ .field []) :
    OpensWord (.quote q) rest :=
  opensWord_of_startsWord (Reader.run_takeFieldName_none rfl h) rfl (startsWord_quote false q rest)

/-- The tokens behind a word make nothing else of it. -/
structure Calm (x : Text) (rest : List Token) : Prop where
  field : ∀ t ∈ rest.head?, t ≠ .field []
  bracket : ∀ t ∈ rest, t.isBracket = false
  substring : Filter.Substring.startsHere (.word x :: rest) = false

end Query

open Query (Calm OpensWord)

/-- A word that no sign starts and that no operation is named after, or a star. -/
structure Nameless (x : Text) : Prop where
  first : ∃ c k, x = c :: k ∧ Text.isBlank c = false ∧
    (Quoting.isReserved c = false ∨ c = '*' ∧ k = [])
  keyword : ∀ id : OperationId, id.keyword ≠ Text.lower x

namespace Nameless

theorem isInner (h : Nameless x) : (Token.word x).isInner = true := by
  obtain ⟨c, k, rfl, -, first⟩ := h.first
  have bar : Token.word (c :: k) ≠ .word ['|'] := by
    rintro ⟨⟩
    exact absurd first (by decide)
  have connective : (Token.word (c :: k)).isConnective = false := by
    rw [Token.isConnective, Token.word?, Option.any_some, Text.isOneOf, List.contains_eq_mem]
    simp only [List.mem_cons, List.not_mem_nil, or_false, decide_eq_false_iff_not, not_or]
    exact ⟨(h.keyword .and).symm, (h.keyword .or).symm, (h.keyword .not).symm⟩
  have text : (Token.word (c :: k)).hasText ['|'] = false := by
    rw [Token.hasText, Token.text?, beq_eq_false_iff_ne]
    exact fun same => bar (congrArg Token.word (Option.some.inj same))
  simpa [Token.isInner, connective, Token.isComment] using text

theorem startsWord (h : Nameless x) (calm : Calm x rest) :
    Query.StartsWord false (.word x) rest := by
  obtain ⟨c, k, rfl, -, first⟩ := h.first
  have sign {d : Char} (hd : Quoting.isReserved d = true) (star : d ≠ '*') : c ≠ d := by
    rintro rfl
    simp [hd, star] at first
  have starts {d : Char} (hd : Quoting.isReserved d = true) (star : d ≠ '*') :
      Query.wordStarts (.word (c :: k)) d = false := by
    simpa [Query.wordStarts, Token.word?] using sign hd star
  have whole {d : Char} (hd : Quoting.isReserved d = true) (star : d ≠ '*') :
      (Token.word (c :: k)).isWord [d] = false := by
    simpa [Token.isWord, Token.word?] using fun same : c = d => absurd same (sign hd star)
  have called : Reader.callName (.word (c :: k) :: rest) = [] := by
    cases rest with
    | nil => rfl
    | cons t ts =>
        have := calm.bracket t (by simp)
        cases t <;> first | rfl | contradiction
  exact
    { bracket := rfl
      sign := by
        have tilde := starts (d := '~') (by decide) (by decide)
        have equal := whole (d := '=') (by decide) (by decide)
        have bang := whole (d := '!') (by decide) (by decide)
        simp [Query.signFilter?, tilde, equal, bang, calm.substring]
      member := by
        rcases rest with _ | ⟨t, _ | ⟨u, us⟩⟩
        · rfl
        · cases t <;> rfl
        · have := calm.bracket u (by simp)
          cases t <;> cases u <;> first | rfl | contradiction
      call := by
        rw [Query.callFilter?, called]
        rfl
      compare := ⟨starts (by decide) (by decide), starts (by decide) (by decide)⟩
      negation := ⟨whole (by decide) (by decide), whole (by decide) (by decide)⟩
      stats := by
        change OperationId.named? .stats (c :: k) = none
        simp [OperationId.named?, h.keyword] }

/-- Unless it is a star, no star starts the word. -/
theorem calm (h : Nameless x) (field : ∀ t ∈ rest.head?, t ≠ .field [])
    (bracket : ∀ t ∈ rest, t.isBracket = false)
    (star : x = ['*'] → Filter.Substring.startsHere (.word x :: rest) = false) : Calm x rest where
  field := field
  bracket := bracket
  substring := by
    by_cases alone : x = ['*']
    · exact star alone
    · obtain ⟨c, k, rfl, -, first⟩ := h.first
      have other : c ≠ '*' := by
        rintro rfl
        rcases first with unreserved | ⟨-, rfl⟩
        · exact absurd unreserved (by decide)
        · exact alone rfl
      have notStar : (c :: k == ['*']) = false := beq_false_of_ne alone
      simp [Filter.Substring.startsHere, notStar, Text.startsWith, other.symm]

theorem calm_nil (h : Nameless x) : Calm x [] :=
  h.calm (by simp) (by simp) (by rintro rfl; rfl)

end Nameless

theorem category_of_pipeOfKeyword? {id : OperationId} (h : Query.pipeOfKeyword? x = some id) :
    id.category = .pipes := by
  rw [Query.pipeOfKeyword?] at h
  split at h
  · exact Option.some.inj h ▸ rfl
  · split at h
    · exact Option.some.inj h ▸ rfl
    · have mem := List.mem_of_find?_eq_some h
      simpa [OperationId.ofCategory] using (List.mem_filter.mp mem).2

/-- Without a bracket behind it, the name of a measure takes no token. -/
theorem run_readOperation_measure {id : OperationId}
    (call : (id == .jsonArrayLen || id == .hash || id == .len) = true) (calm : Calm x rest) :
    (readOperation {} id none).run (.word x :: rest) =
      ({ id, params := [.empty, .empty] }, .word x :: rest) := by
  have noCall : (Reader.takeCall).run (.word x :: rest) = (none, .word x :: rest) := by
    cases rest with
    | nil => rfl
    | cons t ts =>
        have := calm.bracket t (by simp)
        cases t <;> first | rfl | contradiction
  have read : (Pipe.Measure.read {}).run (.word x :: rest) =
      ([.empty, .empty], .word x :: rest) := by
    rw [Pipe.Measure.read, Reader.run_bind, noCall]
    rfl
  have same : (define {} id).read none = Pipe.Measure.read {} := by
    simp only [Bool.or_eq_true, beq_iff_eq] at call
    rcases call with (rfl | rfl) | rfl <;> rfl
  rw [readOperation, same, Reader.run_bind, read]
  rfl

/-- A word that is no alias is looked up among the pipes. -/
theorem run_readPipe?_word (named : Text.lower x ∉ pipeAliases) (rest : List Token) :
    (Query.readPipe? {}).run (.word x :: rest) = match Query.pipeOfKeyword? (Text.lower x) with
      | none => (none, .word x :: rest)
      | some id =>
        let opened : Reader Operation :=
          if id == .jsonArrayLen || id == .hash || id == .len then readOperation {} id none
          else Query.afterKeyword (readOperation {} id none)
        (some [(opened.run (.word x :: rest)).1], (opened.run (.word x :: rest)).2) := by
  simp only [pipeAliases, List.mem_cons, List.not_mem_nil, or_false, not_or] at named
  obtain ⟨-, -, filter, other⟩ := named
  rw [Query.readPipe?, Reader.run_bind, Reader.run_peek]
  dsimp only [List.head?_cons]
  rw [beq_false_of_ne filter, beq_false_of_ne other]
  cases Query.pipeOfKeyword? (Text.lower x) with
  | none => rfl
  | some id =>
      simp only [Bool.or_self, Bool.false_eq_true, if_false]
      split
      · rfl
      · rfl

/-- The pipes that are calls take nothing without a bracket and give way to the word. -/
theorem opensWord_measure {id : OperationId} (named : Text.lower x ∉ pipeAliases)
    (pipe : Query.pipeOfKeyword? (Text.lower x) = some id)
    (call : (id == .jsonArrayLen || id == .hash || id == .len) = true) (calm : Calm x rest) :
    OpensWord (.word x) rest := by
  intro ops
  have next : (Query.readNext {} false).run (.word x :: rest) =
      ([{ id, params := [.empty, .empty] }], .word x :: rest) := by
    rw [Query.readNext, Reader.run_bind, Reader.run_takeFieldName_none rfl calm.field]
    dsimp only
    rw [if_pos (by simp), Reader.run_bind, run_readPipe?_word named, pipe]
    dsimp only
    rw [if_pos call, run_readOperation_measure call calm]
    rfl
  exact Query.readSegmentRound_stuck (by simp) next

/-- Any other pipe is read in place of the word. -/
theorem id_ne_word_of_pipe {id : OperationId} (named : Text.lower x ∉ pipeAliases)
    (pipe : Query.pipeOfKeyword? (Text.lower x) = some id)
    (call : ¬(id == .jsonArrayLen || id == .hash || id == .len) = true) :
    ∀ op ∈ Query.readSegment {} false [.word x], op.id ≠ .word := by
  have category := category_of_pipeOfKeyword? pipe
  have next : (Query.readNext {} false).run [.word x] =
      ([((readOperation {} id none).run []).1], []) := by
    have nothing : ((readOperation {} id none).run []).2 = [] :=
      List.suffix_nil.mp ((readOperation {} id none).suffix [])
    have opened : (Query.readPipe? {}).run [.word x] =
        (some [((readOperation {} id none).run []).1],
          ((readOperation {} id none).run []).2) := by
      rw [run_readPipe?_word named, pipe]
      dsimp only
      rw [if_neg call]
      rfl
    rw [Query.readNext, Reader.run_bind, Reader.run_takeFieldName_none rfl (by simp)]
    dsimp only
    rw [if_pos (by simp), Reader.run_bind, opened, nothing]
    rfl
  have notStats : ((readOperation {} id none).run []).1.id.category ≠ .stats := by
    change id.category ≠ .stats
    simp [category]
  rw [Query.readSegment_run (by simp) next notStats]
  intro op hop word
  rw [List.mem_singleton.mp hop] at word
  change id = .word at word
  rw [word] at category
  contradiction

/-- Whether a word names a pipe does not depend on what stands behind it. -/
theorem Nameless.opensWord_or (h : Nameless x) :
    (∀ rest, Calm x rest → OpensWord (.word x) rest) ∨
      ∀ op ∈ Query.readSegment {} false [.word x], op.id ≠ .word := by
  by_cases named : Text.lower x ∈ pipeAliases
  · exact .inr (readSegment_alias named)
  cases pipe : Query.pipeOfKeyword? (Text.lower x) with
  | none =>
      refine .inl fun rest calm => Query.opensWord_of_startsWord ?_ ?_ (h.startsWord calm)
      · exact Reader.run_takeFieldName_none rfl calm.field
      · rw [run_readPipe?_word named, pipe]
  | some id =>
      by_cases call : (id == .jsonArrayLen || id == .hash || id == .len) = true
      · exact .inl fun rest calm => opensWord_measure named pipe call calm
      · exact .inr (id_ne_word_of_pipe named pipe call)

/-- What no name has in it stays in lower case, so the word names no operation. -/
theorem keyword_ne_of_mem {c : Char} (hc : c ∈ ['*', '$', ' ']) (hx : c ∈ x) (id : OperationId) :
    id.keyword ≠ Text.lower x := by
  intro same
  have shape : Text.lowerChar c = c ∧ c ≠ '\u0130' ∧ c ≠ '\u03a3' ∧ Text.isNameChar c = false := by
    simp only [List.mem_cons, List.not_mem_nil, or_false] at hc
    rcases hc with rfl | rfl | rfl <;> decide
  obtain ⟨stable, dotted, sigma, unnamed⟩ := shape
  have mem : c ∈ id.keyword := same ▸ Text.mem_lowerAfter stable dotted sigma hx []
  exact (Text.isName_keyword id).not_mem unnamed mem

/-- No name has a space in it. -/
theorem Nameless.append_space (h : Nameless x) (other : x ≠ ['*']) (y : Text) :
    Nameless (x ++ ' ' :: y) := by
  obtain ⟨c, k, rfl, visible, first⟩ := h.first
  refine ⟨⟨c, k ++ ' ' :: y, rfl, visible, .inl (first.resolve_right ?_)⟩,
    keyword_ne_of_mem (c := ' ') (by simp) (by simp)⟩
  rintro ⟨rfl, rfl⟩
  exact other rfl

theorem readOperations_word (h : Nameless x) (tokens : tokenize x = [.word x]) :
    Query.readOperations x "_msg" = Query.readSegment {} false [.word x] :=
  Query.operations_segment (by simp) (by simpa using h.isInner) tokens

end LogQuery
