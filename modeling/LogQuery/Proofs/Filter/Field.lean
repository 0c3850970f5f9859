import LogQuery.Proofs.Query.Stages

/-!
# Fields in front of filters

A filter of the default field names no field, any other field stands before a colon, in quotes
when its name collides with a keyword. Whatever the form, the name is read off again and the
filter behind it is read for that field. Names with filters of their own are left out.
-/

namespace LogQuery

open Lexer (Lexes Spells)

/-! ### Names of fields -/

/-- The name of a field without filters of its own. -/
structure IsFieldName (f : Text) : Prop extends Text.IsName f where
  unreserved : f ∉ [("_time" : Text), "_stream", "_stream_id"]

instance (f : Text) : Decidable (IsFieldName f) :=
  decidable_of_iff (f.IsName ∧ f ∉ [("_time" : Text), "_stream", "_stream_id"])
    ⟨fun h => { h.1 with unreserved := h.2 }, fun h => ⟨h.toIsName, h.unreserved⟩⟩

namespace Scope

variable {s : Scope} {f : Text}

/-- The tokens of a field mark. -/
def fieldTokens (s : Scope) (f : Text) : List Token :=
  if f = s.defaultField then []
  else if Quoting.mustQuote f then [.quote (Quoting.enclose .all f), .field []]
  else [.field f]

/-- The field that a mark names. -/
def namedField (s : Scope) (f : Text) : Option Text := if f = s.defaultField then none else some f

theorem fieldParam_namedField (hf : f ≠ []) : s.fieldParam (s.namedField f) = .text f := by
  unfold namedField
  split
  · next h => rw [h]; rfl
  · simp [fieldParam, fieldOrDefault, hf]

theorem namedField_ne (hf : IsFieldName f) :
    ∀ g ∈ s.namedField f, g ∉ [("_time" : Text), "_stream", "_stream_id"] := by
  unfold namedField
  split
  · simp
  · simpa using hf.unreserved

theorem lexes_fieldMark (hs : s.escape = .all) (hf : f.IsName) :
    Lexes 63 (s.fieldMark f) (s.fieldTokens f) := by
  unfold fieldMark fieldTokens
  by_cases default : f = s.defaultField
  · simp [isDefaultField, default, Lexes.nil]
  · have named : s.isDefaultField f = false := by simp [isDefaultField, default, hf.nonempty]
    rw [if_neg (by simp [named]), if_neg default, quote, Quoting.quoteWith, hs]
    split
    · next h =>
      rw [if_pos (by simpa using h)]
      exact (Lexes.quote (lacksMark_of_isName hf)).append (.field (w := []) (by simp))
    · next h =>
      rw [if_neg (by simpa using h)]
      exact .field fun c hc => Lexer.isPlain_of_isNameChar (hf.chars c hc)

theorem head?_fieldMark (hs : s.escape = .all) (hf : f.IsName) :
    ∀ c ∈ (s.fieldMark f).head?, Text.isBlank c = false := by
  unfold fieldMark
  split
  · simp
  · rw [quote, Quoting.quoteWith, hs]
    split
    · rw [List.head?_append_of_ne_nil _ (Lexer.tight_enclose f).nonempty]
      exact (Lexer.tight_enclose f).first
    · rw [List.head?_append_of_ne_nil _ hf.nonempty]
      exact hf.tight.first

/-- A filter text behind the mark of a field. -/
theorem spells_fieldMark (hs : s.escape = .all) (hf : f.IsName) {t : Text} {ts : List Token}
    (h : Spells 63 t ts) : Spells 63 (s.fieldMark f ++ t) (s.fieldTokens f ++ ts) :=
  .append_left (lexes_fieldMark hs hf) (head?_fieldMark hs hf) h

theorem isInner_fieldTokens (hf : f.IsName) : ∀ t ∈ s.fieldTokens f, t.isInner = true := by
  have inner : (Token.field f).isInner = true := by
    have : f ≠ ['|'] := hf.ne ⟨'|', by simp, by decide⟩
    simpa [Token.isInner, Token.hasText, Token.text?, Token.isConnective, Token.word?,
      Token.isComment] using this
  have mark : (Token.quote (Quoting.enclose .all f)).isInner = true :=
    (Quotes.enclose (lacksMark_of_isName hf)).isInner
  unfold fieldTokens
  split
  · simp
  · split
    · intro t ht
      rcases List.mem_cons.mp ht with rfl | ht
      · exact mark
      · rw [List.mem_singleton.mp ht]
        rfl
    · simpa using inner

theorem clings_fieldTokens (hf : f ≠ []) : ∀ t ∈ (s.fieldTokens f).head?, t.clings = false := by
  unfold fieldTokens
  split
  · simp
  · split
    · simp [Token.clings]
    · simp [Token.clings, hf]

theorem run_takeFieldName (hs : s.escape = .all) (hf : f.IsName) {ts : List Token}
    (h : (Reader.takeFieldName s).run ts = (none, ts)) :
    (Reader.takeFieldName s).run (s.fieldTokens f ++ ts) = (s.namedField f, ts) := by
  have unquoted : s.unquote (Quoting.enclose .all f) = f :=
    (Quotes.enclose (lacksMark_of_isName hf)).unquote_eq hs
  unfold fieldTokens namedField
  split
  · exact h
  · split
    · simp [Reader.takeFieldName, unquoted, hf.trim_eq]
    · simp [Reader.takeFieldName, hf.trim_eq]

end Scope

/-! ### Reading behind a field -/

namespace Query

variable {s : Scope} {f : Text} {op : Operation} {body rest : List Token}

theorem reservedField?_eq_none {field : Option Text}
    (h : ∀ g ∈ field, g ∉ [("_time" : Text), "_stream", "_stream_id"]) (ts : List Token) :
    reservedField? field ts = none := by
  cases field with
  | none => rfl
  | some g =>
      have other := h g rfl
      simp only [List.mem_cons, List.not_mem_nil, or_false, not_or] at other
      obtain ⟨time, stream, streamId⟩ := other
      have differ {w : Text} (hw : g ≠ w) : (some g == some w) = false := by
        simpa [beq_eq_false_iff_ne] using hw
      rw [reservedField?, differ time, differ stream, differ streamId]
      rfl

/-- A filter that one round reads. -/
theorem readFilter_run {onlyFilters : Bool} {field : Option Text} {ops : List Operation}
    (h : (readFilterRound s onlyFilters field []).run body = (.done ops, rest)) :
    (readFilter s onlyFilters field).run body = (ops, rest) :=
  (Reader.Iterates.done h).run_loop

/-- A filter of a field that has its own. -/
theorem readFilterRound_reserved {onlyFilters : Bool} {field : Option Text} (id : OperationId)
    (h : reservedField? field body = some id) :
    (readFilterRound s onlyFilters field []).run body =
      (.done [((readOperation s id field).run body).1],
        ((readOperation s id field).run body).2) := by
  simp [readFilterRound, h]

/-- A filter known by its bracket or sign. -/
theorem readFilterRound_sign {onlyFilters : Bool} {field : Option Text} (id : OperationId)
    (hfield : ∀ g ∈ field, g ∉ [("_time" : Text), "_stream", "_stream_id"])
    (hbracket : bracketFilter? body = none) (hsign : signFilter? body = some id) :
    (readFilterRound s onlyFilters field []).run body =
      (.done [((readOperation s id field).run body).1],
        ((readOperation s id field).run body).2) := by
  simp [readFilterRound, reservedField?_eq_none hfield, hbracket, hsign]

/-- A filter known by the name of its call. -/
theorem readFilterRound_call {onlyFilters : Bool} {field : Option Text} (id : OperationId)
    (hfield : ∀ g ∈ field, g ∉ [("_time" : Text), "_stream", "_stream_id"])
    (hbracket : bracketFilter? body = none) (hsign : signFilter? body = none)
    (hmember : membership? body = none) (hcall : callFilter? onlyFilters body = some id) :
    (readFilterRound s onlyFilters field []).run body =
      (.done [((readOperation s id field).run body).1],
        ((readOperation s id field).run body).2) := by
  simp [readFilterRound, reservedField?_eq_none hfield, hbracket, hsign, hmember, hcall]

/-- A token that starts no other filter, with the tokens behind it. -/
structure StartsWord (onlyFilters : Bool) (t : Token) (ts : List Token) : Prop where
  bracket : bracketFilter? (t :: ts) = none
  sign : signFilter? (t :: ts) = none
  member : membership? (t :: ts) = none
  call : callFilter? onlyFilters (t :: ts) = none
  compare : wordStarts t '>' = false ∧ wordStarts t '<' = false
  negation : t.isWord ['!'] = false ∧ t.isWord ['-'] = false
  stats : statsName? t = none

theorem readFilterRound_word {onlyFilters : Bool} {t : Token} {ts : List Token}
    (field : Option Text) (hfield : ∀ g ∈ field, g ∉ [("_time" : Text), "_stream", "_stream_id"])
    (h : StartsWord onlyFilters t ts) :
    (readFilterRound s onlyFilters field []).run (t :: ts) =
      (.done [((readOperation s .word field).run (t :: ts)).1],
        ((readOperation s .word field).run (t :: ts)).2) := by
  have stats : (takeStats? s).run (t :: ts) = (none, t :: ts) := by
    simp [takeStats?, h.stats]
  simp [readFilterRound, reservedField?_eq_none hfield, h.bracket, h.sign, h.member, h.call,
    h.compare, h.negation, stats]

theorem startsWord_quote (onlyFilters : Bool) (q : Text) (ts : List Token) :
    StartsWord onlyFilters (.quote q) ts where
  bracket := rfl
  sign := rfl
  member := rfl
  call := by cases onlyFilters <;> rfl
  compare := ⟨rfl, rfl⟩
  negation := ⟨rfl, rfl⟩
  stats := rfl

/-- Behind its field, a filter that is no pipe is read as it stands. -/
theorem readNext_field (hs : s.escape = .all) (hf : f.IsName) {onlyFilters : Bool}
    (hname : (Reader.takeFieldName s).run body = (none, body))
    (hpipe : (readPipe? s).run body = (none, body))
    (hread : (readFilterRound s onlyFilters (s.namedField f) []).run body = (.done [op], rest)) :
    (readNext s onlyFilters).run (s.fieldTokens f ++ body) = ([op], rest) := by
  have read := readFilter_run hread
  rw [readNext, Reader.run_bind, Scope.run_takeFieldName hs hf hname]
  split
  · rw [Reader.run_bind, hpipe]
    exact read
  · exact read

/-- A query that is one filter behind a field. -/
theorem readOperations_field {t : Text} (hf : f.IsName) (spells : Spells 63 t body)
    (hne : body ≠ []) (inner : ∀ k ∈ body, k.isInner = true)
    (next : (readNext {} false).run (Scope.fieldTokens {} f ++ body) = ([op], []))
    (notStats : op.id.category ≠ .stats) :
    readOperations (Scope.fieldMark {} f ++ t) "_msg" = [op] := by
  have whole : Spells 63 (Scope.fieldMark {} f ++ t) (Scope.fieldTokens {} f ++ body) :=
    Scope.spells_fieldMark rfl hf spells
  have innerWhole : ∀ k ∈ Scope.fieldTokens {} f ++ body, k.isInner = true := by
    intro k hk
    rcases List.mem_append.mp hk with hk | hk
    · exact Scope.isInner_fieldTokens hf k hk
    · exact inner k hk
  have segment : readOperations (Scope.fieldMark {} f ++ t) "_msg" =
      readSegment {} false (Scope.fieldTokens {} f ++ body) :=
    operations_segment (by simp [hne]) innerWhole whole.tokensWithin_eq
  rw [segment]
  exact readSegment_run (by simp [hne]) next notStats

end Query

/-- What is behind the field of a filter: its text, its tokens and how they are read. -/
structure FilterBody (s : Scope) (f : Text) (op : Operation) (body : List Token) : Prop where
  enabled : op.disabled = false
  category : op.id.category = .filters
  spells : ∃ t, Spells 63 t body ∧ (define s op.id).write op [] = s.fieldMark f ++ t
  inner : ∀ t ∈ body, t.isInner = true
  nonempty : body ≠ []
  first : ∀ t ∈ body.head?, t.clings = false
  name : ∀ rest, (∀ t ∈ rest.head?, t.clings = false) →
    (Reader.takeFieldName s).run (body ++ rest) = (none, body ++ rest)
  pipe : ∀ rest, (Query.readPipe? s).run (body ++ rest) = (none, body ++ rest)
  read : ∀ onlyFilters rest, (∀ t ∈ rest.head?, t.clings = false) →
    (Query.readFilterRound s onlyFilters (s.namedField f) []).run (body ++ rest) =
      (.done [op], rest)

/-- A field and what is behind it make up a filter. -/
theorem FilterBody.toForm {s : Scope} {f : Text} {op : Operation} {body : List Token}
    (h : FilterBody s f op body) (hs : s.escape = .all) (hf : IsFieldName f) :
    FilterForm s op (s.fieldTokens f ++ body) where
  enabled := h.enabled
  category := h.category
  spells := by
    obtain ⟨t, spells, written⟩ := h.spells
    rw [written]
    exact Scope.spells_fieldMark hs hf.toIsName spells
  inner t ht := by
    rcases List.mem_append.mp ht with ht | ht
    · exact Scope.isInner_fieldTokens hf.toIsName t ht
    · exact h.inner t ht
  nonempty := by simp [h.nonempty]
  first t ht := by
    rw [List.head?_append, Option.mem_def, Option.or_eq_some_iff] at ht
    rcases ht with ht | ⟨-, ht⟩
    · exact Scope.clings_fieldTokens hf.nonempty t ht
    · exact h.first t ht
  read onlyFilters rest hrest := by
    rw [List.append_assoc]
    exact Query.readNext_field hs hf.toIsName (h.name rest hrest) (h.pipe rest)
      (h.read onlyFilters rest hrest)

end LogQuery
