import LogQuery.Edit.Inspect
import LogQuery.Proofs.Query.Clause
import LogQuery.Proofs.Query.Comments
import LogQuery.Proofs.Token.Words

/-!
# Stats functions seen without tokens

Whether a query has stats functions is decided on its text, without its tokens: some line names
a function as a word of its own, somewhere behind a bar. A function that the reader takes from a
`stats` pipe is always named so in the text of the pipe, because reading keeps words. But the bar
in front of the pipe counts for its own line only. So the two readings differ where the pipe goes
on over several lines and names no function on the first of them.
-/

namespace LogQuery

open Text (wordRuns isWordChar)

namespace Token

/-! ### Writing tokens -/

theorem wordRuns_sourceText (t : Token) (h : t.isComment = false) :
    wordRuns (sourceText [t]) = wordRuns t.spelling := by
  have piece (v : Text) : wordRuns (Text.join [' '] [v]).trim = wordRuns v :=
    Text.wordRuns_trim v
  cases t with
  | comment v => contradiction
  | _ => exact piece _

theorem wordRuns_addCompact (out : Text) (t : Token) :
    wordRuns (addCompact out t) = wordRuns out ++ wordRuns (sourceText [t]) := by
  rw [addCompact]
  split_ifs with blank first
  · rw [List.isEmpty_iff.mp blank]
    exact (List.append_nil _).symm
  · rcases Bool.or_eq_true_iff.mp first with empty | comma
    · rw [List.isEmpty_iff.mp empty]
      rfl
    · rw [eq_of_beq comma, Text.wordRuns_concat out (by decide)]
      exact (List.append_nil _).symm
  · exact Text.wordRuns_append_cons out (by decide) _

/-- A compact text has the words of its tokens. -/
theorem wordRuns_compactText (ts : List Token) (h : ∀ t ∈ ts, t.isComment = false) :
    wordRuns (compactText ts) = words ts := by
  have behind : ∀ us : List Token, (∀ t ∈ us, t.isComment = false) → ∀ out,
      wordRuns (us.foldl addCompact out) = wordRuns out ++ words us := by
    intro us
    induction us with
    | nil =>
        intro _ out
        exact (List.append_nil _).symm
    | cons t us ih =>
        intro hus out
        have rest := ih fun k hk => hus k (List.mem_cons_of_mem t hk)
        rw [List.foldl_cons, rest, wordRuns_addCompact, List.append_assoc,
          wordRuns_sourceText t (hus t List.mem_cons_self)]
        rfl
  rw [compactText_eq, behind ts h]
  rfl

end Token

/-! ### Lines that mention a function -/

/-- A stats function is named, as a word of its own and in any case. -/
def namesStats (t : Text) : Bool := t.holdsWord (OperationId.statsIds.map OperationId.keyword) true

theorem isKeyChar_statsKeyword :
    ∀ id ∈ OperationId.statsIds, ∀ c ∈ id.keyword, Text.isKeyChar c = true := by
  have keys : ∀ id ∈ OperationId.statsIds, id.keyword.all Text.isKeyChar = true := by
    decide
  exact fun id hid => List.all_eq_true.mp (keys id hid)

theorem areWords_statsKeywords : Text.AreWords (OperationId.statsIds.map OperationId.keyword) := by
  apply Text.areWords_of_isKeyChar
  intro k hk
  obtain ⟨id, hid, rfl⟩ := List.mem_map.mp hk
  exact ⟨(Text.isName_keyword id).nonempty, isKeyChar_statsKeyword id hid⟩

theorem namesStats_eq_true_iff {t : Text} :
    namesStats t = true ↔
      ∃ w ∈ wordRuns t, w.map Text.foldChar ∈ OperationId.statsIds.map OperationId.keyword := by
  rw [namesStats, Text.holdsWord_eq_true_iff areWords_statsKeywords, if_pos rfl]

theorem namesStats_append_cons {c : Char} (hc : isWordChar c = false) (t u : Text) :
    namesStats (t ++ c :: u) = (namesStats t || namesStats u) := by
  rw [Bool.eq_iff_iff, Bool.or_eq_true]
  simp only [namesStats_eq_true_iff, Text.wordRuns_append_cons t hc, List.mem_append, or_and_right,
    exists_or]

theorem namesStats_cons {c : Char} (hc : isWordChar c = false) (u : Text) :
    namesStats (c :: u) = namesStats u :=
  namesStats_append_cons hc [] u

/-- A bar between spaces parts the names in front of it from those behind it. -/
theorem namesStats_append_bar (t u : Text) :
    namesStats (t ++ (" | " ++ u)) = (namesStats t || namesStats u) := by
  change namesStats (t ++ ' ' :: '|' :: ' ' :: u) = _
  rw [namesStats_append_cons (by decide), namesStats_cons (by decide), namesStats_cons (by decide)]

/-- What a line mentions, it names. -/
theorem namesStats_of_mentionsStats {line : Text} (h : mentionsStats line = true) :
    namesStats line = true := by
  obtain ⟨⟨before, rest⟩, cut, named⟩ := (Option.any_eq_true _ _).mp h
  obtain ⟨c, bar, rfl⟩ := Text.exists_of_splitFirst? cut
  obtain rfl := eq_of_beq bar
  change namesStats rest = true at named
  rw [namesStats_append_cons (by decide), named, Bool.or_true]

theorem mentionsStats_cons (c : Char) (line : Text) :
    mentionsStats (c :: line) = if c = '|' then namesStats line else mentionsStats line := by
  rw [mentionsStats, Text.splitFirst?]
  by_cases bar : c = '|'
  · simp [bar, namesStats]
  · have other : (c == '|') = false := by simpa using bar
    rw [other, if_neg bar, mentionsStats]
    simp [Option.any_map]

/-! ### Queries that mention a function -/

/-- The text up to the end of its first line. -/
def firstLine (t : Text) : Text := t.takeWhile (· != '\n')

theorem firstLine_eq_self {t : Text} (h : '\n' ∉ t) : firstLine t = t := by
  apply List.takeWhile_eq_self_iff.mpr
  intro c hc
  have other : c ≠ '\n' := by
    rintro rfl
    exact h hc
  simpa using other

theorem exists_splitOn_eq (t : Text) : ∃ lines, t.splitOn (· == '\n') = firstLine t :: lines := by
  induction t with
  | nil => exact ⟨[], rfl⟩
  | cons c cs ih =>
      obtain ⟨lines, split⟩ := ih
      by_cases newline : c = '\n'
      · exact ⟨firstLine cs :: lines, by simp [Text.splitOn, newline, split, firstLine]⟩
      · exact ⟨lines, by simp [Text.splitOn, newline, split, firstLine]⟩

/-- A character at the front adds no function, unless it is a bar with a function behind it on
the first line. -/
theorem hasStatsFunctions_cons (c : Char) (cs : Text) :
    hasStatsFunctions (c :: cs) =
      (decide (c = '|') && namesStats (firstLine cs) || hasStatsFunctions cs) := by
  obtain ⟨lines, split⟩ := exists_splitOn_eq cs
  rw [hasStatsFunctions, hasStatsFunctions, Text.splitOn, split]
  by_cases newline : c = '\n'
  · subst newline
    rfl
  · have other : (c == '\n') = false := by simpa using newline
    rw [other]
    change (mentionsStats (c :: firstLine cs) || lines.any mentionsStats) = _
    rw [mentionsStats_cons, List.any_cons]
    by_cases bar : c = '|'
    · rw [if_pos bar, decide_eq_true bar, Bool.true_and, ← Bool.or_assoc]
      cases mentions : mentionsStats (firstLine cs) with
      | true => rw [namesStats_of_mentionsStats mentions, Bool.true_or, Bool.true_or, Bool.true_or]
      | false => rw [Bool.or_false]
    · rw [if_neg bar, decide_eq_false bar, Bool.false_and, Bool.false_or]

theorem firstLine_append (t u : Text) :
    firstLine (t ++ u) = if '\n' ∈ t then firstLine t else t ++ firstLine u := by
  induction t with
  | nil => rfl
  | cons c cs ih =>
      by_cases newline : c = '\n'
      · simp [firstLine, newline]
      · have other : '\n' ≠ c := Ne.symm newline
        simp only [firstLine, List.cons_append, List.takeWhile_cons] at ih ⊢
        simp [newline, other, ih, apply_ite (List.cons c)]

/-- Two queries joined by a bar have stats functions if one of them has, or if the second names
one on its first line. -/
theorem hasStatsFunctions_append_bar (t u : Text) :
    hasStatsFunctions (t ++ (" | " ++ u)) =
      (hasStatsFunctions t || (namesStats (firstLine u) || hasStatsFunctions u)) := by
  have bar : firstLine (" | " ++ u) = " | " ++ firstLine u := rfl
  induction t with
  | nil =>
      change hasStatsFunctions (' ' :: '|' :: ' ' :: u) = _
      have space : namesStats (firstLine (' ' :: u)) = namesStats (firstLine u) :=
        namesStats_cons (by decide) _
      rw [hasStatsFunctions_cons, hasStatsFunctions_cons, hasStatsFunctions_cons, space]
      rfl
  | cons c cs ih =>
      rw [List.cons_append, hasStatsFunctions_cons, hasStatsFunctions_cons c cs, ih,
        firstLine_append, bar]
      split
      · rw [Bool.or_assoc]
      · next oneLine =>
        -- the first line of the second text is behind the bar of the first one too
        rw [namesStats_append_bar, firstLine_eq_self oneLine]
        cases decide (c = '|') <;> cases namesStats cs <;> cases namesStats (firstLine u) <;> simp

/-! ### The functions of a pipe are named in its text -/

namespace Query

variable {s : Scope} {t : Text} {k : Token}

/-- A token, not a comment, with no words but those of a text. -/
structure TakesWords (t : Text) (k : Token) : Prop where
  notComment : k.isComment = false
  apart : k.IsApart
  words : wordRuns k.spelling ⊆ wordRuns t

theorem takesWords_of_mem_tokenize (h : k ∈ tokenize t) (notComment : k.isComment = false) :
    TakesWords t k where
  notComment := notComment
  apart := Token.isApart_of_mem_tokenize h
  words := by
    intro w hw
    rw [← words_tokenize]
    exact List.mem_flatMap.mpr ⟨k, h, hw⟩

/-- The list of functions in a `stats` pipe has no words but those of the query. -/
theorem origin_statsWords (s : Scope) (t : Text) :
    Origin s (TakesWords t) fun op => op.id = .stats → wordRuns (op.text 1) ⊆ wordRuns t where
  bare callee raw items h := by
    refine ⟨rfl, h.apart, fun w hw => h.words ?_⟩
    rw [Token.wordRuns_bracket h.apart]
    exact List.mem_append_right _ hw
  negation := by simp [Operation.marker]
  chosen id field _ _ := by
    by_cases stats : id = .stats
    · subst stats
      have list : Reader.all.From (TakesWords t)
          fun ks => wordRuns (Token.compactText ks) ⊆ wordRuns t := by
        intro ks hks
        change wordRuns (Token.compactText ks) ⊆ _
        rw [Token.wordRuns_compactText ks fun k hk => (hks k hk).notComment]
        intro w hw
        obtain ⟨k, hk, hw⟩ := List.mem_flatMap.mp hw
        exact (hks k hk).words hw
      have params : Pipe.Stats.read.From (TakesWords t)
          fun ps => wordRuns (Operation.text { id := .stats, params := ps } 1) ⊆ wordRuns t :=
        .step fun _ => list.bind fun _ hks => .pure hks
      exact params.bind fun _ hps => .pure fun _ => hps
    · exact fun _ _ same => absurd same stats
  named _ _ _ named := fun same => absurd same (Stats.ne_of_named named (by decide))

/-- Every word in the list of functions of a `stats` pipe is a word of the query. -/
theorem wordRuns_functions {op : Operation} (hop : op ∈ (read { scope := s } t).operations)
    (stats : op.id = .stats) : wordRuns (op.text 1) ⊆ wordRuns t :=
  (origin_statsWords s t).read_of_id (by decide) (fun _ => takesWords_of_mem_tokenize)
    op hop stats

/-! ### Functions that are read are named -/

/-- A token that names a function has the name of one among its words. -/
theorem exists_word_of_statsName? {id : OperationId} (named : statsName? k = some id)
    (apart : k.IsApart) :
    ∃ w ∈ wordRuns k.spelling,
      w.map Text.foldChar ∈ OperationId.statsIds.map OperationId.keyword := by
  have word {name : Text} (chosen : OperationId.statsFunction? name = some id) :
      name.map Text.foldChar ∈ OperationId.statsIds.map OperationId.keyword ∧
        wordRuns name = [name] := by
    obtain ⟨category, keyword⟩ := Stats.statsFunction?_eq_some chosen
    have listed : id ∈ OperationId.statsIds := by
      revert category
      cases id <;> decide
    have folded : name.map Text.foldChar = id.keyword :=
      Text.map_foldChar_of_lower (isKeyChar_statsKeyword id listed) keyword.symm
    have found : name.map Text.foldChar ∈ OperationId.statsIds.map OperationId.keyword := by
      rw [folded]
      exact List.mem_map_of_mem listed
    refine ⟨found, Text.wordRuns_of_word (areWords_statsKeywords.isWordChar found) ?_⟩
    rintro rfl
    exact (areWords_statsKeywords _ found).1 rfl
  cases k with
  | word name =>
      obtain ⟨found, alone⟩ := word named
      refine ⟨name, ?_, found⟩
      rw [Token.spelling, alone]
      exact List.mem_singleton_self name
  | bracket callee raw items =>
      obtain ⟨found, alone⟩ := word named
      refine ⟨callee, ?_, found⟩
      rw [Token.wordRuns_bracket apart, alone]
      exact List.mem_append_left _ (List.mem_singleton_self callee)
  | field _ | quote _ | comment _ => contradiction

/-- A text from which functions are read names one. -/
theorem namesStats_of_readStatsFunctions {functions field : Text}
    (h : readStatsFunctions functions field ≠ []) : namesStats functions = true := by
  by_contra unnamed
  apply h
  have nameless : ∀ k ∈ tokenize functions, statsName? k = none := by
    intro k hk
    rw [Option.eq_none_iff_forall_not_mem]
    intro id named
    obtain ⟨w, hw, keyword⟩ := exists_word_of_statsName? named (Token.isApart_of_mem_tokenize hk)
    apply unnamed
    rw [namesStats_eq_true_iff, ← words_tokenize]
    exact ⟨w, List.mem_flatMap.mpr ⟨k, hk, hw⟩, keyword⟩
  have nothing : (takeStats? { defaultField := field }).From
      (fun k => statsName? k = none) (· = none) := by
    intro ts hts
    have front : ts.head?.bind statsName? = none := by
      cases ts with
      | nil => rfl
      | cons k ts => exact hts k List.mem_cons_self
    rw [takeStats?, Reader.run_bind, Reader.run_peek]
    dsimp only
    rw [front]
    rfl
  refine Reader.From.loop (I := (· = [])) (fun ops hops => ?_) rfl _ nameless
  refine .step fun before => .ite (.pure hops) (nothing.bind fun found hfound => ?_)
  rw [hops, hfound]
  have last : (do
      let _ ← Reader.eatText ","
      return .more ([] ++ none.toList) : Reader (Reader.Round (List Operation))).From
        (fun k => statsName? k = none) fun next => next.state = [] :=
    .step fun _ => .pure rfl
  exact .step fun _ => .ite (.step fun _ => last) last

end Query

/-! ### The two readings -/

theorem eq_firstLine_or_append (t : Text) :
    firstLine t = t ∨ ∃ rest, t = firstLine t ++ '\n' :: rest := by
  cases rest : t.dropWhile (· != '\n') with
  | nil =>
      left
      rw [firstLine, ← List.append_nil (List.takeWhile _ t), ← rest,
        List.takeWhile_append_dropWhile]
  | cons c r =>
      right
      have newline : c = '\n' := by
        have := List.head?_dropWhile_not (· != '\n') t
        simpa [rest] using this
      refine ⟨r, ?_⟩
      rw [← newline, ← rest, firstLine, List.takeWhile_append_dropWhile]

/-- A text and a `stats` pipe from which functions are read, joined by a bar, are taken for a query
without stats functions exactly in one case: neither of the two is taken for one that has them, the
pipe goes on over several lines, and functions are named on the later lines only. -/
theorem not_hasStatsFunctions_append_iff {s₁ s₂ field : Text} {op : Operation}
    (single : Query.readOperations s₂ "_msg" = [op]) (stats : op.id = .stats)
    (functions : Query.readStatsFunctions (op.text 1) field ≠ []) :
    hasStatsFunctions (s₁ ++ " | " ++ s₂) = false ↔
      hasStatsFunctions s₁ = false ∧ hasStatsFunctions s₂ = false ∧
        ∃ first rest, s₂ = first ++ '\n' :: rest ∧ '\n' ∉ first ∧
          namesStats first = false ∧ namesStats rest = true := by
  have named : namesStats s₂ = true := by
    obtain ⟨w, hw, keyword⟩ :=
      namesStats_eq_true_iff.mp (Query.namesStats_of_readStatsFunctions functions)
    have hop : op ∈ (Query.read { scope := { defaultField := "_msg" } } s₂).operations := by
      change op ∈ Query.readOperations s₂ "_msg"
      rw [single]
      exact List.mem_singleton_self op
    exact namesStats_eq_true_iff.mpr ⟨w, Query.wordRuns_functions hop stats hw, keyword⟩
  rw [List.append_assoc, hasStatsFunctions_append_bar, Bool.or_eq_false_iff, Bool.or_eq_false_iff]
  constructor
  · rintro ⟨before, unnamed, behind⟩
    refine ⟨before, behind, ?_⟩
    rcases eq_firstLine_or_append s₂ with oneLine | ⟨rest, split⟩
    · rw [oneLine, named] at unnamed
      contradiction
    · refine ⟨firstLine s₂, rest, split, ?_, unnamed, ?_⟩
      · intro newline
        simpa using List.mem_takeWhile_imp newline
      · rw [split, namesStats_append_cons (by decide), unnamed, Bool.false_or] at named
        exact named
  · rintro ⟨before, behind, first, rest, rfl, oneLine, unnamed, -⟩
    have line : firstLine (first ++ '\n' :: rest) = first := by
      rw [firstLine_append, if_neg oneLine]
      exact List.append_nil first
    rw [line]
    exact ⟨before, unnamed, behind⟩

/-- Fields on the line of the keyword, and the functions below them. -/
theorem not_hasStatsFunctions_fields_above :
    let s₁ : Text := "level:error | limit 5"
    let s₂ : Text := "stats by (host)\n  Count() hits, max(size)"
    let op : Operation :=
      { id := .stats, params := [.text "host", .text "Count() hits, max(size)"] }
    (Query.readOperations s₂ "_msg" = [op] ∧ op.id = .stats ∧
      Query.readStatsFunctions (op.text 1) [] ≠ []) ∧
      hasStatsFunctions (s₁ ++ " | " ++ s₂) = false := by
  intro s₁ s₂ op
  have single : Query.readOperations s₂ "_msg" = [op] := by decide
  have functions : Query.readStatsFunctions (op.text 1) [] ≠ [] := by decide
  refine ⟨⟨single, rfl, functions⟩, (not_hasStatsFunctions_append_iff single rfl functions).mpr ?_⟩
  refine ⟨by decide, by decide, "stats by (host)", "  Count() hits, max(size)", rfl, ?_⟩
  decide

/-- The keyword on a line of its own is enough for the function to be missed. -/
theorem not_hasStatsFunctions_keyword_above :
    let s₁ : Text := "error"
    let s₂ : Text := "stats\ncount()"
    let op : Operation := { id := .stats, params := [.text [], .text "count()"] }
    (Lexer.IsRaw s₁ ∧ Lexer.openQuote? s₁ = none ∧ Lexer.endsInBracket s₁ = false ∧
      Lexer.IsRaw s₂) ∧
      Query.readOperations s₂ "_msg" = [op] ∧ Query.readStatsFunctions (op.text 1) "_msg" ≠ [] ∧
      hasStatsFunctions (s₁ ++ " | " ++ s₂) = false := by
  decide

end LogQuery
