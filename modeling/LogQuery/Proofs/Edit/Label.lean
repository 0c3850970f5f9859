import LogQuery.Edit.Label
import LogQuery.Proofs.Query.Middle
import LogQuery.Proofs.Quoting.DoubleQuotes
import Mathlib.Data.Set.Finite.List

/-!
# Added labels

A label filter is written behind the text before the first pipe. Whether it takes effect is a
matter of how that text ends: outside quotes, brackets and comments the filter is a run of its
own, with the value that was asked for. A comment at the end takes the filter in instead, since
the edit does not look for one.
-/

namespace LogQuery

open Lexer (Lexes Scan)

theorem Place.splitBefore_cases (r : PlaceRules) (cut : Char → Bool) (p : Place) (t : Text) :
    (p.splitBefore r cut t).2 = [] ∨
      ∃ c cs, (p.splitBefore r cut t).2 = c :: cs ∧ cut c = true := by
  induction t generalizing p with
  | nil => exact .inl rfl
  | cons c cs ih =>
      rw [splitBefore]
      split
      · next top => exact .inr ⟨c, cs, rfl, (Bool.and_eq_true_iff.1 top).2⟩
      · exact ih (p.step r c)

namespace LabelEdit

/-! ### The text of an edit -/

/-- The text before the first pipe, as far as it is not blank. -/
def head (q : Text) : Text := (splitHead q).1.trim

/-- What comes behind an added filter: the first pipe and all that follows. -/
def behind (q : Text) : Text := if (splitHead q).2.isEmpty then [] else ' ' :: (splitHead q).2.trim

/-- Behind the filter comes nothing, or a space and a pipe. -/
theorem behind_cases (q : Text) :
    behind q = [] ∨ ∃ t : Text, behind q = ' ' :: '|' :: t ∧ Text.Tight ('|' :: t) := by
  rcases Place.splitBefore_cases stageRules (· == '|') {} q with none | ⟨c, cs, pipes, bar⟩
  · left
    rw [behind, splitHead, none]
    rfl
  · right
    obtain rfl : c = '|' := by simpa using bar
    have trimmed : Text.trim ('|' :: cs) = '|' :: Text.trimEnd cs :=
      Text.trim_append_cons [] (by decide) cs
    refine ⟨Text.trimEnd cs, ?_, ?_⟩
    · rw [behind, splitHead, pipes, trimmed]
      rfl
    · rw [← trimmed]
      exact { Text.trimmed_trim _ with nonempty := by simp [trimmed] }

theorem joinHead_of_tight {t : Text} (h : t.Tight) (pipes : Text) :
    joinHead t pipes = t ++ if pipes.isEmpty then [] else ' ' :: pipes.trim := by
  rw [joinHead, h.allBlank_eq, h.trim_eq]
  split <;> simp

theorem tight_head_and {t : Text} (h : t.Tight) {q : Text} (some : head q ≠ []) :
    (head q ++ " AND " ++ t).Tight :=
  Text.Tight.around { Text.trimmed_trim (splitHead q).1 with nonempty := some } " AND " h

/-- A filter stands behind the text before the first pipe, or alone if that is blank. -/
theorem add_eq {l : LabelTerm} (tight : l.text.Tight) (q : Text) :
    add l q = (if head q = [] then l.text else head q ++ " AND " ++ l.text) ++ behind q := by
  have whole : (if (splitHead q).1.allBlank then l.text
      else (splitHead q).1.trim ++ " AND " ++ l.text) =
        if head q = [] then l.text else head q ++ " AND " ++ l.text := by
    cases blank : (splitHead q).1.allBlank with
    | true => simp [head, Text.trim_of_allBlank blank]
    | false => simp [head, (Text.tight_trim blank).nonempty]
  have whole_tight : (if head q = [] then l.text else head q ++ " AND " ++ l.text).Tight := by
    split
    · exact tight
    · next some => exact tight_head_and tight some
  rw [add, whole, joinHead_of_tight whole_tight, behind]

theorem tight_append_behind {t : Text} (h : t.Tight) (q : Text) : (t ++ behind q).Tight := by
  rcases behind_cases q with none | ⟨u, some, tight⟩
  · simpa [none] using h
  · simpa [some] using h.around [' '] tight

/-- A whole text in front of pipes is read first. Its tokens are followed by a pipe, if by
anything. -/
theorem exists_tokenize_append_behind {t : Text} {ts : List Token} (tight : t.Tight)
    (lexes : Lexes 63 t ts) (q : Text) :
    ∃ us, tokenize (t ++ behind q) = ts ++ us ∧ ∀ k ∈ us.head?, k.hasText "|" = true := by
  have read : tokenize (t ++ behind q) =
      ts ++ (Scan.start.run (behind q)).map (Lexer.Lexeme.toToken (Lexer.tokensWithin 63)) := by
    rw [tokenize, Lexer.maxNesting, Lexer.tokensWithin, Lexer.lexemes,
      (tight_append_behind tight q).trim_eq, Scan.run_append, lexes.closed, List.map_append,
      lexes.tokens]
  refine ⟨_, read, ?_⟩
  rcases behind_cases q with none | ⟨u, some, -⟩
  · have nothing : Scan.start.run [] = [] := rfl
    simp [none, nothing]
  · have space : Scan.start.step ' ' = ([], .start) := rfl
    have bar : Scan.start.step '|' = ([.word ['|']], .start) := rfl
    rw [some, Scan.run, space, Scan.run, bar]
    intro k hk
    obtain rfl : k = .word ['|'] := by simpa [Lexer.Lexeme.toToken, eq_comm] using hk
    rfl

/-! ### An exact filter -/

/-- The term that compares a key with a value for equality. -/
def equalTerm (key value : Text) : LabelTerm := { key, value, operator := .equal }

/-- The exact filter of a key and a value. -/
def equalFilter (key value : Text) : Operation :=
  { id := .exact, params := [.text key, .text value, .flag false, .flag false] }

/-- The tokens of the filter. -/
def equalTokens (key value : Text) : List Token :=
  [.field key, .word ['='], .quote (Quoting.inDoubleQuotes value)]

section Exact

variable {key : Text}

theorem text_equalTerm (hkey : IsFieldName key) (value : Text) :
    (equalTerm key value).text = key ++ ":=" ++ Quoting.inDoubleQuotes value := by
  have other : LabelTerm.isStreamKey key = false := by
    rw [LabelTerm.isStreamKey, Text.isOneOf, List.contains_eq_mem, decide_eq_false_iff_not]
    exact fun stream => hkey.unreserved (List.mem_cons_of_mem _ stream)
  simp [LabelTerm.text, equalTerm, other]

theorem tight_equalTerm (hkey : IsFieldName key) (value : Text) :
    (equalTerm key value).text.Tight := by
  rw [text_equalTerm hkey]
  exact hkey.tight.around ":=" (Quoting.tight_inDoubleQuotes value)

theorem lexes_equalTerm (hkey : IsFieldName key) (value : Text) :
    Lexes 63 (equalTerm key value).text (equalTokens key value) := by
  have field : Lexes 63 (key ++ [':']) [.field key] :=
    .field fun c hc => Lexer.isPlain_of_isNameChar (hkey.chars c hc)
  have sign : Lexes 63 ['='] [.word ['=']] := .separator (by simp)
  rw [text_equalTerm hkey]
  simpa [equalTokens] using (field.append sign).append (Quoting.lexes_inDoubleQuotes value)

theorem isInner_equalTokens (hkey : IsFieldName key) (value : Text) :
    ∀ t ∈ equalTokens key value, t.isInner = true := by
  have field : key ≠ ['|'] := hkey.ne ⟨'|', by simp, by decide⟩
  have quote : Quoting.inDoubleQuotes value ≠ ['|'] := by
    simp [Quoting.inDoubleQuotes, Quoting.between, QuoteMark.char]
  intro t ht
  simp only [equalTokens, List.mem_cons, List.not_mem_nil, or_false] at ht
  rcases ht with rfl | rfl | rfl
  · simpa [Token.isInner, Token.hasText, Token.text?, Token.isConnective, Token.word?,
      Token.isComment] using field
  · rfl
  · exact Token.isInner_quote quote

/-- Behind its field, the filter is the equality sign and the value. -/
theorem run_readOperation_equal {s : Scope} (hs : s.escape = .all) (hkey : IsFieldName key)
    (value : Text) :
    (readOperation s .exact (some key)).run
      [.word ['='], .quote (Quoting.inDoubleQuotes value)] = (equalFilter key value, []) := by
  let body : List Token := [.word ['='], .quote (Quoting.inDoubleQuotes value)]
  have unquoted : s.unquote (Quoting.inDoubleQuotes value) = value := by
    rw [Scope.unquote, hs]
    exact Quoting.unquote_inDoubleQuotes value
  have param : s.fieldParam (some key) = .text key := by
    simp [Scope.fieldParam, Scope.fieldOrDefault, hkey.nonempty]
  have bang : (Reader.eatWord ['!']).run body = (false, body) := rfl
  have equal : (Reader.eatWord ['=']).run body = (true, body.tail) := rfl
  have star : (Reader.eatWord ['*']).run [] = (false, []) := rfl
  have taken : (Filter.Exact.takeStarred s).run body.tail = ((value, false), []) := by
    simp [Filter.Exact.takeStarred, body, unquoted, star]
  have params : (Filter.Exact.read s (some key)).run body =
      ([.text key, .text value, .flag false, .flag false], []) := by
    simp [Filter.Exact.read, bang, equal, taken, param]
  have reader : (define s .exact).read = Filter.Exact.read s := rfl
  rw [readOperation, Reader.run_bind, reader, params]
  rfl

/-- Wherever it stands as a run of its own, the text of the filter is read as the filter. -/
theorem standsAlone_equalTokens {s : Scope} (hs : s.escape = .all) (hkey : IsFieldName key)
    (value : Text) : StandsAlone s (equalFilter key value) (equalTokens key value) where
  nonempty := by simp [equalTokens]
  inner := isInner_equalTokens hkey value
  read onlyFilters := by
    let body : List Token := [.word ['='], .quote (Quoting.inDoubleQuotes value)]
    have round : (Query.readFilterRound s onlyFilters (some key) []).run body =
        (.done [((readOperation s .exact (some key)).run body).1],
          ((readOperation s .exact (some key)).run body).2) :=
      Query.readFilterRound_sign .exact (by simpa using hkey.unreserved) rfl rfl
    rw [run_readOperation_equal hs hkey value] at round
    have next : (Query.readNext s onlyFilters).run (equalTokens key value) =
        ([equalFilter key value], []) := by
      have named : (Reader.takeFieldName s).run (equalTokens key value) = (some key, body) := by
        simp [Reader.takeFieldName, equalTokens, hkey.trim_eq, body]
      rw [Query.readNext, Reader.run_bind, named]
      exact Query.readFilter_run round
    exact Query.readSegment_run (by simp [equalTokens]) next
      (by simp [equalFilter, OperationId.category])

end Exact

/-! ### Filters that take effect -/

/-- A text that ends outside quotes, brackets and comments is complete behind a space. -/
theorem exists_lexes_space {t : Text} (plain : Lexer.endMode t = .plain) :
    ∃ ts, Lexes 63 (t ++ [' ']) ts := by
  have mode : (Scan.start.feed t).2.mode = .plain := (Scan.mode_feed _ t).trans plain
  have feed : Scan.start.feed (t ++ [' ']) =
      ((Scan.start.feed t).1 ++ (Scan.start.feed t).2.word, .start) := by
    rw [Scan.feed_append, Scan.feed_cons, Scan.step_space mode]
    simp
  exact ⟨_, .of_feed feed⟩

/-- Outside quotes, brackets and comments an added filter is read as what was asked for. -/
theorem mem_readOperations_add {key : Text} (hkey : IsFieldName key) (value q : Text)
    (plain : Lexer.endMode (head q) = .plain) :
    equalFilter key value ∈ Query.readOperations (add (equalTerm key value) q) "_msg" := by
  have alone := standsAlone_equalTokens (s := { defaultField := "_msg" }) rfl hkey value
  have filter := lexes_equalTerm hkey value
  have tight := tight_equalTerm hkey value
  rw [add_eq tight]
  split
  · obtain ⟨us, tokens, bars⟩ := exists_tokenize_append_behind tight filter q
    have first : tokenize ((equalTerm key value).text ++ behind q) =
        [] ++ equalTokens key value ++ us := tokens
    exact Query.mem_operations alone first (.inl rfl) bars
  · next some =>
    obtain ⟨ts, before⟩ := exists_lexes_space plain
    have connective : Lexer.Spells 63 "AND" [.word "AND"] := .name (by decide)
    have lexes : Lexes 63 (head q ++ " AND " ++ (equalTerm key value).text)
        (ts ++ [.word "AND"] ++ equalTokens key value) := by
      simpa using (before.append connective.lexes).append filter
    obtain ⟨us, tokens, bars⟩ :=
      exists_tokenize_append_behind (tight_head_and tight some) lexes q
    exact Query.mem_operations alone tokens (.inr ⟨ts, _, rfl, rfl, rfl⟩) bars

/-! ### Filters in a comment -/

/-- A comment goes on to the end of its line, and behind it a scan starts again. -/
theorem run_comment (held : List Char) (t : Text) :
    Scan.run ⟨.comment, held⟩ t =
      Scan.comment ⟨.comment, (t.takeWhile (· != '\n')).reverse ++ held⟩ ++
        Scan.start.run (t.dropWhile (· != '\n')).tail := by
  induction t generalizing held with
  | nil => exact (List.append_nil _).symm
  | cons c cs ih =>
      by_cases newline : c = '\n'
      · subst newline
        rfl
      · have step : Scan.step ⟨.comment, held⟩ c = ([], ⟨.comment, c :: held⟩) := by
          simp [Scan.step, Scan.hold, newline]
        rw [Scan.run, step, ih, List.takeWhile_cons_of_pos (by simpa using newline),
          List.dropWhile_cons_of_pos (by simpa using newline)]
        simp

/-- A comment that holds a letter is a token, and no pipe. -/
theorem exists_comment {held : List Char} (letter : 'A' ∈ held) :
    ∃ c : Text, c ≠ ['|'] ∧ Scan.comment ⟨.comment, held⟩ = [.comment c] := by
  have seen : 'A' ∈ Text.trim held.reverse := Text.mem_trim (List.mem_reverse.2 letter) (by decide)
  refine ⟨Text.trim held.reverse, ?_, ?_⟩
  · intro bar
    rw [bar] at seen
    exact absurd seen (by decide)
  · rw [Scan.comment, Scan.buffer, if_neg]
    rw [List.isEmpty_iff]
    exact List.ne_nil_of_mem seen

/-- A text that ends in a comment takes in a filter of one line. What is read before the comment
and behind the line is the same for all filters. -/
theorem exists_tokenize_comment {q : Text} (comment : Lexer.endMode (head q) = .comment) :
    ∃ ts us, ∀ l : LabelTerm, l.text.Tight → '\n' ∉ l.text →
      ∃ c : Text, c ≠ ['|'] ∧ tokenize (add l q) = ts ++ .comment c :: us := by
  obtain ⟨ls, held, feed⟩ : ∃ ls held, Scan.start.feed (head q) = (ls, ⟨.comment, held⟩) := by
    have mode : (Scan.start.feed (head q)).2.mode = .comment := (Scan.mode_feed _ _).trans comment
    exact ⟨_, _, Prod.ext rfl (congrArg (Scan.mk · _) mode)⟩
  have some : head q ≠ [] := by
    intro nothing
    rw [nothing] at comment
    contradiction
  let read := Lexer.Lexeme.toToken (Lexer.tokensWithin 63)
  refine ⟨ls.map read, (Scan.start.run ((behind q).dropWhile (· != '\n')).tail).map read, ?_⟩
  intro l tight line
  have inline : ∀ c ∈ (" AND " : Text) ++ l.text, (c != '\n') = true := by
    have connective : ∀ c ∈ (" AND " : Text), (c != '\n') = true := by simp
    have filter : ∀ c ∈ l.text, (c != '\n') = true := by
      intro c hc
      simpa using fun newline : c = '\n' => line (newline ▸ hc)
    exact fun c hc => (List.mem_append.1 hc).elim (connective c) (filter c)
  have letter : 'A' ∈ (" AND " ++ l.text ++ (behind q).takeWhile (· != '\n')).reverse ++ held := by
    simp
  obtain ⟨c, hc, taken⟩ := exists_comment letter
  refine ⟨c, hc, ?_⟩
  have added : head q ++ " AND " ++ l.text ++ behind q =
      head q ++ (" AND " ++ l.text ++ behind q) := by simp
  rw [add_eq tight, if_neg some, tokenize, Lexer.maxNesting, Lexer.tokensWithin, Lexer.lexemes,
    (tight_append_behind (tight_head_and tight some) q).trim_eq, added, Scan.run_append, feed,
    run_comment, List.takeWhile_append_of_pos inline, List.dropWhile_append_of_pos inline, taken]
  simp [read, Lexer.Lexeme.toToken]

/-- In a comment one filter does what any other does. -/
theorem withoutComments_add {q : Text} (comment : Lexer.endMode (head q) = .comment)
    {l m : LabelTerm} (tight : l.text.Tight) (line : '\n' ∉ l.text) (tight' : m.text.Tight)
    (line' : '\n' ∉ m.text) (field : Text) :
    Query.withoutComments (Query.readOperations (add l q) field) =
      Query.withoutComments (Query.readOperations (add m q) field) := by
  obtain ⟨ts, us, read⟩ := exists_tokenize_comment comment
  obtain ⟨c, hc, tokens⟩ := read l tight line
  obtain ⟨d, hd, tokens'⟩ := read m tight' line'
  exact Query.withoutComments_read hc hd tokens tokens'

theorem not_mem_forDouble {c : Char} {t : Text} (slash : c ≠ '\\') (h : c ∉ t) :
    c ∉ Escape.forDouble t := by
  induction t with
  | nil => exact h
  | cons d t ih =>
      rw [List.mem_cons, not_or] at h
      cases escaped : Escape.isEscaped d with
      | true =>
          rw [Escape.forDouble_cons_escaped escaped]
          simp [slash, h.1, ih h.2]
      | false =>
          rw [Escape.forDouble_cons escaped]
          simp [h.1, ih h.2]

theorem line_equalTerm {key value : Text} (hkey : IsFieldName key) (h : '\n' ∉ value) :
    '\n' ∉ (equalTerm key value).text := by
  have name : '\n' ∉ key := hkey.not_mem (by decide)
  have escaped := not_mem_forDouble (c := '\n') (by decide) h
  rw [text_equalTerm hkey, Quoting.inDoubleQuotes_eq, Quoting.between]
  simp [name, escaped, QuoteMark.char]

/-- In a comment not every added filter takes effect: the operations of the query are those of
one fixed filter, and they are finitely many. -/
theorem exists_not_mem_readOperations_add {key q : Text} (hkey : IsFieldName key)
    (comment : Lexer.endMode (head q) = .comment) :
    ∃ value, equalFilter key value ∉ Query.readOperations (add (equalTerm key value) q) "_msg" := by
  by_contra none
  have all (value : Text) : equalFilter key value ∈
      Query.readOperations (add (equalTerm key value) q) "_msg" :=
    by_contra fun lost => none ⟨value, lost⟩
  let values (n : Nat) : Text := List.replicate n 'a'
  have line (n : Nat) : '\n' ∉ (equalTerm key (values n)).text :=
    line_equalTerm hkey (by simp [values, List.mem_replicate])
  let read := Query.withoutComments (Query.readOperations (add (equalTerm key (values 0)) q) "_msg")
  have mem (n : Nat) : equalFilter key (values n) ∈ read := by
    have same := withoutComments_add comment (tight_equalTerm hkey (values n)) (line n)
      (tight_equalTerm hkey (values 0)) (line 0) "_msg"
    have kept : equalFilter key (values n) ∈
        Query.withoutComments (Query.readOperations (add (equalTerm key (values n)) q) "_msg") :=
      List.mem_filter.2 ⟨all _, rfl⟩
    rwa [same] at kept
  have injective : Function.Injective fun n => equalFilter key (values n) := by
    intro n m same
    have lengths : (values n).length = (values m).length :=
      congrArg (fun op : Operation => (op.text 1).length) same
    simpa [values] using lengths
  exact Set.infinite_of_injective_forall_mem injective mem read.finite_toSet

/-- An added filter takes effect exactly where the text before the first pipe ends in no comment.
The text is to leave no quote, bracket or escape open. -/
theorem forall_mem_readOperations_add_iff {key q : Text} (hkey : IsFieldName key)
    (quote : Lexer.openQuote? (head q) = none) (bracket : Lexer.endsInBracket (head q) = false)
    (escape : Lexer.endMode (head q) ≠ .escaped) :
    (∀ value, equalFilter key value ∈
        Query.readOperations (add (equalTerm key value) q) "_msg") ↔
      Lexer.endMode (head q) ≠ .comment := by
  constructor
  · intro all comment
    obtain ⟨value, lost⟩ := exists_not_mem_readOperations_add hkey comment
    exact lost (all value)
  · intro noComment value
    apply mem_readOperations_add hkey value q
    rw [Lexer.openQuote?] at quote
    rw [Lexer.endsInBracket] at bracket
    generalize Lexer.endMode (head q) = mode at *
    cases mode with
    | plain => rfl
    | escaped => contradiction
    | comment => contradiction
    | quoted m => contradiction
    | quotedEscaped m => contradiction
    | bracket depth within => contradiction

/-- A comment before the last line, a pipe in a bracket, a number sign in quotes, and a pipe. -/
theorem forall_mem_readOperations_add_line :
    let q : Text := "a # b\n c:in(d|e) '# f' | limit 5"
    (IsFieldName "baz" ∧ Lexer.openQuote? (head q) = none ∧
      Lexer.endsInBracket (head q) = false ∧ Lexer.endMode (head q) ≠ .escaped) ∧
      Lexer.endMode (head q) ≠ .comment ∧
      ∀ value, equalFilter "baz" value ∈
        Query.readOperations (add (equalTerm "baz" value) q) "_msg" := by
  intro q
  have name : IsFieldName "baz" := by decide
  have quote : Lexer.openQuote? (head q) = none := by decide
  have bracket : Lexer.endsInBracket (head q) = false := by decide
  have escape : Lexer.endMode (head q) ≠ .escaped := by decide
  have line : Lexer.endMode (head q) ≠ .comment := by decide
  exact ⟨⟨name, quote, bracket, escape⟩, line,
    (forall_mem_readOperations_add_iff name quote bracket escape).2 line⟩

/-- A comment at the end of a query takes the filter in. -/
theorem not_mem_readOperations_add_comment :
    let q : Text := "foo # bar"
    (Lexer.openQuote? q = none ∧ Lexer.endsInBracket q = false ∧ IsFieldName "baz") ∧
      add (equalTerm "baz" "qux") q = "foo # bar AND baz:=\"qux\"" ∧
      equalFilter "baz" "qux" ∉
        Query.readOperations (add (equalTerm "baz" "qux") q) "_msg" := by
  intro q
  have text : add (equalTerm "baz" "qux") q = "foo # bar AND baz:=\"qux\"" := by decide
  have read : Query.readOperations "foo # bar AND baz:=\"qux\"" "_msg" =
      [{ id := .word, params := [.text "_msg", .text "foo", .flag false, .flag false] },
        { id := .comment, params := [.text "bar AND baz:=\"qux\""] }] := by decide
  refine ⟨by decide, text, ?_⟩
  rw [text, read]
  decide

/-! ### Queries without escapes and comments -/

open Lexer (IsRaw)

theorem splitBefore_raw {m : Lexer.Mode} {p : Place} {t : Text} (h : m.Meets p) (raw : IsRaw t) :
    IsRaw (p.splitBefore stageRules (· == '|') t).1 ∧
      ((p.splitBefore stageRules (· == '|') t).1 = t ∨
        m.after (p.splitBefore stageRules (· == '|') t).1 = .plain) := by
  induction t generalizing m p with
  | nil => exact ⟨raw, .inl rfl⟩
  | cons c t ih =>
      obtain ⟨hash, slash⟩ := raw c (by simp)
      obtain ⟨rest, ending⟩ := ih (h.step hash slash) fun d hd => raw d (by simp [hd])
      rw [Place.splitBefore]
      split
      · next top =>
        have plain := h.isTop_iff.1 (Bool.and_eq_true_iff.1 top).1
        exact ⟨by simp [IsRaw], .inr plain⟩
      · refine ⟨?_, ending.imp_left fun whole => congrArg (c :: ·) whole⟩
        intro d hd
        rcases List.mem_cons.1 hd with rfl | hd
        · exact ⟨hash, slash⟩
        · exact rest d hd

/-- Without escapes and comments, a query that is closed is closed before its first pipe. -/
theorem endMode_head {q : Text} (raw : IsRaw q) (quote : Lexer.openQuote? q = none)
    (bracket : Lexer.endsInBracket q = false) : Lexer.endMode (head q) = .plain := by
  obtain ⟨raw', ending⟩ := splitBefore_raw .plain raw
  have plain : Lexer.endMode (splitHead q).1 = .plain := by
    rcases ending with whole | plain
    · rw [splitHead, whole]
      exact Lexer.endMode_eq_plain raw quote bracket
    · exact plain
  apply Lexer.endMode_eq_plain (Lexer.IsRaw.trim raw')
  · exact (Lexer.openQuote?_trim _).trans (by rw [Lexer.openQuote?]; exact congrArg _ plain)
  · exact (Lexer.endsInBracket_trim _).trans (by rw [Lexer.endsInBracket]; exact congrArg _ plain)

/-- Every filter that is added to a closed query without escapes and comments takes effect. -/
theorem mem_readOperations_add_of_isRaw {key q : Text} (hkey : IsFieldName key) (value : Text)
    (raw : IsRaw q) (quote : Lexer.openQuote? q = none) (bracket : Lexer.endsInBracket q = false) :
    equalFilter key value ∈ Query.readOperations (add (equalTerm key value) q) "_msg" :=
  mem_readOperations_add hkey value q (endMode_head raw quote bracket)

end LabelEdit

end LogQuery
