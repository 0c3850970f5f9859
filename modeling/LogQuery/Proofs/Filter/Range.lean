import LogQuery.Proofs.Decimal.Whole
import LogQuery.Proofs.Filter.Field
import LogQuery.Proofs.Query.Written

/-!
# Numeric ranges

A range lists its two bounds inside a bracket whose delimiters say which of them belongs to it.
The delimiters are always read back. A minus sign in front of a bound is a word of its own for the
reader of the bracket, so that a negative bound stands for two values. There are two values in the
bracket, and the bounds are read back, only if neither is negative; otherwise both come back as
zero.
-/

namespace LogQuery

open Decimal (intText natText)
open Lexer (AllInert Lexes Spells)

/-! ### Integers as tokens -/

/-- The words that the text of an integer is read as. -/
def intWords (n : Int) : List Text := if n < 0 then [['-'], natText n.natAbs] else [natText n.natAbs]

theorem Lexer.Lexes.minus {levels : Nat} : Lexes levels ['-'] [.word ['-']] := ⟨rfl, rfl⟩

theorem spells_intText (levels : Nat) (n : Int) :
    Spells levels (intText n) ((intWords n).map .word) := by
  have digits : Spells levels (natText n.natAbs) [.word (natText n.natAbs)] :=
    .name (Decimal.isName_natText _)
  unfold intText intWords
  split
  · exact .append_left .minus (by simp [Text.isBlank]) digits
  · exact digits

theorem allInert_intText (n : Int) : AllInert (intText n) := by
  have digits : AllInert (natText n.natAbs) := fun c hc =>
    Lexer.isInert_of_isNameChar ((Decimal.isName_natText _).chars c hc)
  unfold intText
  split
  · intro c hc
    rcases List.mem_cons.mp hc with rfl | hc
    · rfl
    · exact digits c hc
  · exact digits

theorem ne_comma_of_mem_intWords {n : Int} {w : Text} (h : w ∈ intWords n) : w ≠ [','] := by
  have digits : natText n.natAbs ≠ [','] := (Decimal.isName_natText _).ne ⟨',', by simp, by decide⟩
  unfold intWords at h
  split at h
  · simp only [List.mem_cons, List.not_mem_nil, or_false] at h
    rcases h with rfl | rfl
    · decide
    · exact digits
  · rw [List.mem_singleton.mp h]
    exact digits

/-- An integer is a single word exactly when it is not negative. -/
theorem intWords_cases (n : Int) :
    0 ≤ n ∧ intWords n = [intText n] ∨ n < 0 ∧ (intWords n).length = 2 := by
  unfold intWords intText
  split
  · next negative => exact .inr ⟨negative, rfl⟩
  · next positive => exact .inl ⟨by omega, rfl⟩

/-! ### The bracket of a range -/

/-- The range filter of a field. -/
def rangeFilter (f : Text) (lower upper : Param) (fromLower toUpper : Bool) : Operation where
  id := .range
  params := [.text f, lower, upper, .flag fromLower, .flag toUpper]

/-- The delimiter in front of the lower bound. -/
def rangeOpener (fromLower : Bool) : Char := if fromLower then '[' else '('

/-- The delimiter behind the upper bound. -/
def rangeCloser (toUpper : Bool) : Char := if toUpper then ']' else ')'

/-- The two bounds with a comma between. -/
def boundsText (lower upper : Int) : Text := intText lower ++ ',' :: ' ' :: intText upper

/-- The bracket behind the word `range`. -/
def rangeBracket (lower upper : Int) (fromLower toUpper : Bool) : Text :=
  rangeOpener fromLower :: (boundsText lower upper ++ [rangeCloser toUpper])

variable {s : Scope} {f : Text} {lower upper : Int} {fromLower toUpper : Bool}

theorem write_range :
    (define s .range).write
        (rangeFilter f (.text (intText lower)) (.text (intText upper)) fromLower toUpper) [] =
      s.fieldMark f ++ ("range" ++ rangeBracket lower upper fromLower toUpper) := by
  cases fromLower <;> cases toUpper <;>
    simp [define, Filter.Range.definition, Filter.Range.write, rangeFilter, Operation.text,
      Operation.flag, Param.toText, Param.toFlag, afterFilter, rangeBracket, rangeOpener,
      rangeCloser, boundsText]

/-- The words inside the bracket, the comma left out. -/
def boundWords (lower upper : Int) : List Text := intWords lower ++ intWords upper

/-- The tokens inside the bracket. -/
def boundTokens (lower upper : Int) : List Token :=
  (intWords lower).map .word ++ .word [','] :: (intWords upper).map .word

theorem tokensWithin_boundsText (lower upper : Int) :
    Lexer.tokensWithin 63 (boundsText lower upper) = boundTokens lower upper :=
  ((spells_intText 62 lower).separated (by simp) (spells_intText 62 upper)).tokensWithin_eq

theorem listedValues_intWords (s : Scope) (n : Int) :
    Reader.listedValues s ((intWords n).map .word) = intWords n := by
  have kept : ((intWords n).map Token.word).filter (fun t => t.isValue && !t.isWord ",") =
      (intWords n).map Token.word := by
    rw [List.filter_eq_self]
    intro t ht
    obtain ⟨w, hw, rfl⟩ := List.mem_map.mp ht
    have notComma := ne_comma_of_mem_intWords hw
    simpa [Token.isValue, Token.isWord, Token.word?] using notComma
  rw [Reader.listedValues, kept, List.map_map]
  exact List.map_id _

/-- The comma is no value. -/
theorem listedValues_boundTokens (s : Scope) (lower upper : Int) :
    Reader.listedValues s (boundTokens lower upper) = boundWords lower upper := by
  have append (ts us : List Token) : Reader.listedValues s (ts ++ us) =
      Reader.listedValues s ts ++ Reader.listedValues s us := by
    simp [Reader.listedValues]
  have comma (ts : List Token) : Reader.listedValues s (.word [','] :: ts) =
      Reader.listedValues s ts := by
    simp [Reader.listedValues, Token.isValue, Token.isWord, Token.word?]
  rw [boundTokens, append, comma, listedValues_intWords, listedValues_intWords, boundWords]

/-- The bounds that are read: those that were written, or zeros when one of them is negative. -/
def readBounds (lower upper : Int) : Param × Param :=
  if 0 ≤ lower ∧ 0 ≤ upper then (.text (intText lower), .text (intText upper))
  else (.int 0, .int 0)

theorem bounds_eq (s : Scope) (raw : Text) :
    Filter.Range.bounds s ⟨"range", raw, boundTokens lower upper⟩ = readBounds lower upper := by
  rw [Filter.Range.bounds, listedValues_boundTokens, boundWords, readBounds]
  rcases intWords_cases lower with ⟨hl, single⟩ | ⟨hl, double⟩
  · rcases intWords_cases upper with ⟨hu, single'⟩ | ⟨hu, double'⟩
    · rw [single, single', if_pos ⟨hl, hu⟩]
      rfl
    · rw [single, if_neg (by omega)]
      obtain ⟨v, w, words⟩ := List.length_eq_two.mp double'
      rw [words]
      rfl
  · rw [if_neg (by omega)]
    obtain ⟨v, w, words⟩ := List.length_eq_two.mp double
    obtain ⟨x, xs, words'⟩ : ∃ x xs, intWords upper = x :: xs := by
      unfold intWords
      split
      · exact ⟨_, _, rfl⟩
      · exact ⟨_, _, rfl⟩
    rw [words, words']
    rfl

/-! ### Reading a range -/

theorem opensWith_rangeBracket (items : List Token) :
    Bracket.opensWith ⟨"range", rangeBracket lower upper fromLower toUpper, items⟩ '[' =
      fromLower := by
  cases fromLower <;> rfl

theorem closesWith_rangeBracket (items : List Token) :
    Bracket.closesWith ⟨"range", rangeBracket lower upper fromLower toUpper, items⟩ ']' =
      toUpper := by
  rw [Bracket.closesWith, rangeBracket, ← List.cons_append, List.getLast?_concat]
  cases toUpper <;> rfl

/-- The token of a range. -/
def rangeToken (lower upper : Int) (fromLower toUpper : Bool) : Token :=
  .bracket "range" (rangeBracket lower upper fromLower toUpper) (boundTokens lower upper)

/-- The range that is read for given bounds. -/
def readRange (f : Text) (lower upper : Int) (fromLower toUpper : Bool) : Operation :=
  rangeFilter f (readBounds lower upper).1 (readBounds lower upper).2 fromLower toUpper

theorem run_readOperation_range (field : Option Text) (us : List Token) :
    (readOperation s .range field).run (rangeToken lower upper fromLower toUpper :: us) =
      ({ id := .range,
         params := [s.fieldParam field, (readBounds lower upper).1, (readBounds lower upper).2,
           .flag fromLower, .flag toUpper] }, us) := by
  have taken : Reader.takeCall.run (rangeToken lower upper fromLower toUpper :: us) =
      (some ⟨"range", rangeBracket lower upper fromLower toUpper, boundTokens lower upper⟩, us) :=
    rfl
  have read : (Filter.Range.read s field).run (rangeToken lower upper fromLower toUpper :: us) =
      ([s.fieldParam field, (readBounds lower upper).1, (readBounds lower upper).2,
        .flag fromLower, .flag toUpper], us) := by
    rw [Filter.Range.read, Reader.run_bind, taken]
    dsimp only
    rw [bounds_eq, opensWith_rangeBracket, closesWith_rangeBracket]
    rfl
  change ((define s .range).read field).run _ = _ at read
  rw [readOperation, Reader.run_bind, read]
  rfl

theorem readNext_range (hs : s.escape = .all) (hf : IsFieldName f) (onlyFilters : Bool)
    (us : List Token) :
    (Query.readNext s onlyFilters).run
        (s.fieldTokens f ++ rangeToken lower upper fromLower toUpper :: us) =
      ([readRange f lower upper fromLower toUpper], us) := by
  have round : (Query.readFilterRound s onlyFilters (s.namedField f) []).run
      (rangeToken lower upper fromLower toUpper :: us) = _ :=
    Query.readFilterRound_call .range (Scope.namedField_ne hf) rfl rfl rfl rfl
  rw [run_readOperation_range, Scope.fieldParam_namedField hf.nonempty] at round
  exact Query.readNext_field hs hf.toIsName rfl rfl round

theorem spells_range :
    Spells 63 ("range" ++ rangeBracket lower upper fromLower toUpper)
      [rangeToken lower upper fromLower toUpper] := by
  have plain : ∀ c ∈ ("range" : Text), Lexer.isPlain c = true := by simp [Lexer.isPlain]
  have inert : AllInert (boundsText lower upper) := by
    intro c hc
    simp only [boundsText, List.mem_append, List.mem_cons] at hc
    rcases hc with hc | rfl | rfl | hc
    · exact allInert_intText lower c hc
    · rfl
    · rfl
    · exact allInert_intText upper c hc
  have opener : isOpener (rangeOpener fromLower) = true := by cases fromLower <;> rfl
  have closer : isCloser (rangeCloser toUpper) = true := by cases toUpper <;> rfl
  have captured : Lexes 63 ("range" ++ rangeBracket lower upper fromLower toUpper) _ :=
    .call (w := "range") opener closer plain inert
  rw [tokensWithin_boundsText] at captured
  have name : Text.Tight "range" := (by decide : Text.IsName "range").tight
  have closing : Text.Tight [rangeCloser toUpper] := .singleton (by cases toUpper <;> decide)
  have tight := name.around (rangeOpener fromLower :: boundsText lower upper) closing
  exact .of_lexes (by simpa [rangeBracket] using tight) captured

/-- Of a query that is a single range, the field and the flags are read back in any case. -/
theorem readOperations_rangeFilter (hf : IsFieldName f) (lower upper : Int)
    (fromLower toUpper : Bool) :
    Query.readOperations (writeOperations
        [rangeFilter f (.text (intText lower)) (.text (intText upper)) fromLower toUpper]) "_msg" =
      [readRange f lower upper fromLower toUpper] := by
  have body : Spells 63 ("range" ++ rangeBracket lower upper fromLower toUpper)
      [rangeToken lower upper fromLower toUpper] := spells_range
  have written : writeOperations
      [rangeFilter f (.text (intText lower)) (.text (intText upper)) fromLower toUpper] =
      Scope.fieldMark {} f ++ ("range" ++ rangeBracket lower upper fromLower toUpper) := by
    have whole := Scope.spells_fieldMark (s := {}) rfl hf.toIsName body
    rw [writeOperations_filter rfl rfl]
    change ((define {} .range).write _ []).trim = _
    rw [write_range, whole.tight.trim_eq]
  have inner : (rangeToken lower upper fromLower toUpper).isInner = true := rfl
  rw [written]
  apply Query.readOperations_field hf.toIsName body (by simp) ?_ (readNext_range rfl hf false [])
  · simp [readRange, rangeFilter, OperationId.category]
  · simpa using inner

/-- A range with whole bounds is read back as it was written exactly when neither bound is
negative. -/
theorem readOperations_writeOperations_range_iff (hf : IsFieldName f) (lower upper : Int)
    (fromLower toUpper : Bool) :
    let op := rangeFilter f (.text (intText lower)) (.text (intText upper)) fromLower toUpper
    Query.readOperations (writeOperations [op]) "_msg" = [op] ↔ 0 ≤ lower ∧ 0 ≤ upper := by
  intro op
  rw [readOperations_rangeFilter hf, readRange, readBounds]
  split
  · next natural => exact iff_of_true rfl natural
  · next negative =>
    refine iff_of_false ?_ negative
    intro same
    simp [op, rangeFilter, Param.int] at same

/-- Bounds from zero on, behind a field whose name is a keyword. -/
theorem readOperations_writeOperations_range_sort :
    let op := rangeFilter "sort" (.text (intText 0)) (.text (intText 10)) true false
    IsFieldName "sort" ∧ Query.readOperations (writeOperations [op]) "_msg" = [op] := by
  intro op
  have field : IsFieldName "sort" := by decide
  constructor
  · exact field
  · apply (readOperations_writeOperations_range_iff field 0 10 true false).mpr
    omega

/-- A negative lower bound comes back as zero, and the upper one with it. -/
theorem readOperations_range_negative :
    let op := rangeFilter "size" (.text (intText (-5))) (.text (intText 5)) false false
    IsFieldName "size" ∧ writeOperations [op] = ("size:range(-5, 5)" : Text) ∧
      Query.readOperations (writeOperations [op]) "_msg" =
        [rangeFilter "size" (.int 0) (.int 0) false false] ∧
      rangeFilter "size" (.int 0) (.int 0) false false ≠ op := by
  intro op
  have field : IsFieldName "size" := by decide
  refine ⟨field, by decide, ?_, by decide⟩
  exact readOperations_rangeFilter field (-5) 5 false false

end LogQuery
