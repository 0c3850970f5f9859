import LogQuery.Proofs.Filter.Field
import LogQuery.Proofs.Query.First
import LogQuery.Proofs.Query.Written
import LogQuery.Proofs.Token.Held

/-!
# Time filters

A moment stands in a query without quotes, so its colons make fields of all its parts but the
last, and an equality sign is a word of its own. Reading puts the parts together again, behind
the sign that belongs to the first of them. A sign of two characters is read apart from what it
compares with, as a single word: it is read back in front of a text without colons only.
-/

namespace LogQuery

open Lexer (IsHeld Lexes Spells isPlain)

theorem Text.ne_of_digit {t u : Text} (h : ∃ d ∈ t, d.isDigit = true)
    (hu : u.any Char.isDigit = false) : t ≠ u := by
  obtain ⟨d, hd, digit⟩ := h
  rintro rfl
  exact List.any_eq_false.mp hu d hd digit

theorem Text.join_cons_cons (separator t : Text) (c : Char) (ts : List Text) :
    join separator ((c :: t) :: ts) = c :: join separator (t :: ts) := by
  cases ts <;> rfl

/-! ### Parts between colons -/

/-- A part of a moment or a duration: a digit, and then ASCII letters, digits, minus signs and
points. -/
structure IsTimePart (p : Text) : Prop where
  first : ∃ d ∈ p.head?, d.isDigit = true
  chars : ∀ c ∈ p, (c.isAlphanum || c == '-' || c == '.') = true

instance (p : Text) : Decidable (IsTimePart p) :=
  decidable_of_iff (p.head?.any Char.isDigit = true ∧
      p.all (fun c => c.isAlphanum || c == '-' || c == '.') = true) (by
    rw [Option.any_eq_true, List.all_eq_true]
    exact ⟨fun h => ⟨h.1, h.2⟩, fun h => ⟨h.first, h.chars⟩⟩)

/-- A part, or the first part behind a sign: a word that has a digit. -/
structure IsTimeWord (w : Text) : Prop where
  chars : ∀ c ∈ w, (isPlain c = true ∨ c = '-') ∧ Text.isBlank c = false
  first : w.head? ≠ some '-'
  digit : ∃ d ∈ w, d.isDigit = true

theorem IsTimePart.isTimeWord {p : Text} (h : IsTimePart p) : IsTimeWord p where
  chars c hc := by
    have kind := h.chars c hc
    by_cases minus : c = '-'
    · subst minus
      exact ⟨.inr rfl, by decide⟩
    · have name : Text.isNameChar c = true := by
        simp only [beq_false_of_ne minus, Bool.or_false, Bool.or_eq_true] at kind
        rcases kind with letter | point
        · simp [Text.isNameChar, letter]
        · simp [Text.isNameChar, point]
      exact ⟨.inl (Lexer.isPlain_of_isNameChar name), Text.isBlank_of_isNameChar name⟩
  first minus := by
    obtain ⟨d, first, digit⟩ := h.first
    rw [Option.mem_unique first minus] at digit
    exact absurd digit (by decide)
  digit := by
    obtain ⟨d, first, digit⟩ := h.first
    exact ⟨d, List.mem_of_mem_head? first, digit⟩

namespace IsTimeWord

variable {w u : Text}

theorem cons {c : Char} (hc : c = '>' ∨ c = '<') (h : IsTimeWord w) : IsTimeWord (c :: w) where
  chars d hd := by
    rcases List.mem_cons.mp hd with rfl | hd
    · rcases hc with rfl | rfl <;> simp [isPlain, Text.isBlank]
    · exact h.chars d hd
  first := by rcases hc with rfl | rfl <;> simp
  digit := by
    obtain ⟨d, hd, digit⟩ := h.digit
    exact ⟨d, List.mem_cons_of_mem c hd, digit⟩

theorem nonempty (h : IsTimeWord w) : w ≠ [] := by
  obtain ⟨d, hd, -⟩ := h.digit
  exact List.ne_nil_of_mem hd

theorem tight (h : IsTimeWord w) : w.Tight := .of_all h.nonempty fun c hc => (h.chars c hc).2

theorem held (h : IsTimeWord w) : IsHeld w where
  chars c hc := (h.chars c hc).1
  first := by
    rw [h.tight.trimStart_eq]
    exact h.first

theorem ne (h : IsTimeWord w) (hu : u.any Char.isDigit = false) : w ≠ u :=
  Text.ne_of_digit h.digit hu

theorem isInner_field (h : IsTimeWord w) : (Token.field w).isInner = true := by
  have bar : w ≠ ['|'] := h.ne (by decide)
  simpa [Token.isInner, Token.hasText, Token.text?, Token.isConnective, Token.word?,
    Token.isComment] using bar

/-- A digit is no part of a connective in any case. -/
theorem isInner_word (h : IsTimeWord w) : (Token.word w).isInner = true := by
  obtain ⟨d, hd, digit⟩ := h.digit
  have name : Text.isNameChar d = true := by simp [Text.isNameChar, Char.isAlphanum, digit]
  have small : d.toNat < 128 := by
    have := (Text.bounds_of_isNameChar name).2
    omega
  have lower : Text.lowerChar d = d := by
    rw [Text.lowerChar, if_pos small, Text.toLower_of_isDigit digit]
  have kept : d ∈ Text.lower w :=
    Text.mem_lowerAfter lower (by rintro rfl; contradiction) (by rintro rfl; contradiction) hd []
  have other {u : Text} (hu : u.any Char.isDigit = false) : Text.lower w ≠ u :=
    Text.ne_of_digit ⟨d, kept, digit⟩ hu
  have connective : (Token.word w).isConnective = false := by
    rw [Token.isConnective, Token.word?, Option.any_some, Text.isOneOf, List.contains_eq_mem]
    simp only [List.mem_cons, List.not_mem_nil, or_false, decide_eq_false_iff_not, not_or]
    exact ⟨other (by decide), other (by decide), other (by decide)⟩
  have bar : w ≠ ['|'] := h.ne (by decide)
  simpa [Token.isInner, Token.hasText, Token.text?, Token.isComment, connective] using bar

end IsTimeWord

/-- The tokens of words with colons between: fields, and a word at the end. -/
def partTokens : List Text → List Token
  | [] => []
  | [w] => [.word w]
  | w :: ws => .field w :: partTokens ws

variable {w : Text} {ws : List Text}

theorem partTokens_cons_cons (w v : Text) (ws : List Text) :
    partTokens (w :: v :: ws) = .field w :: partTokens (v :: ws) := rfl

theorem IsTimeWord.spells (h : IsTimeWord w) : Spells 63 w [.word w] :=
  ⟨h.tight, .of_feed (h.held.feed_space h.tight)⟩

theorem spells_parts (hne : ws ≠ []) (h : ∀ w ∈ ws, IsTimeWord w) :
    Spells 63 (Text.join ":" ws) (partTokens ws) := by
  fun_induction partTokens ws with
  | case1 => contradiction
  | case2 w => exact (h w (by simp)).spells
  | case3 w ws more ih =>
      have word := h w (by simp)
      have field : Lexes 63 (w ++ [':']) [.field w] := .of_feed word.held.feed_colon
      have rest := ih more fun v hv => h v (by simp [hv])
      obtain ⟨v, vs, rfl⟩ := List.exists_cons_of_ne_nil more
      refine .append_left field ?_ rest
      rw [List.head?_append_of_ne_nil _ word.nonempty]
      exact word.tight.first

theorem exists_digit_join (hne : ws ≠ []) (h : ∀ w ∈ ws, IsTimeWord w) :
    ∃ d ∈ Text.join ":" ws, d.isDigit = true := by
  fun_cases partTokens ws with
  | case1 => contradiction
  | case2 w => exact (h w (by simp)).digit
  | case3 w ws more =>
      obtain ⟨d, hd, digit⟩ := (h w (by simp)).digit
      obtain ⟨v, vs, rfl⟩ := List.exists_cons_of_ne_nil more
      exact ⟨d, List.mem_append_left _ (List.mem_append_left _ hd), digit⟩

theorem isInner_parts (h : ∀ w ∈ ws, IsTimeWord w) : ∀ t ∈ partTokens ws, t.isInner = true := by
  fun_induction partTokens ws with
  | case1 => simp
  | case2 w => simpa using (h w (by simp)).isInner_word
  | case3 w ws more ih =>
      simpa using ⟨(h w (by simp)).isInner_field, ih fun v hv => h v (by simp [hv])⟩

/-! ### Reading the parts -/

namespace Filter

open Time (takeOperand takeComparison)

variable {s : Scope}

theorem run_takeValue_word (h : IsTimeWord w) (s : Scope) (rest : List Token) :
    (Reader.takeValue s).run (.word w :: rest) = (some w, rest) := by
  have notComma : (Token.word w).hasText [','] = false := by
    simpa [Token.hasText, Token.text?] using h.ne (u := [',']) (by decide)
  simp [Reader.takeValue, Token.isValue, notComma]
  rfl

/-- A run of fields ends with the word behind them. -/
theorem run_takeRun_parts (hne : ws ≠ []) (rest : List Token) :
    (Reader.takeRun Token.field?).run (partTokens ws ++ rest) =
      (ws.dropLast, .word (ws.getLast hne) :: rest) := by
  fun_induction partTokens ws with
  | case1 => contradiction
  | case2 w => rfl
  | case3 w ws more ih =>
      have taken (ts : List Token) : (Reader.takeRun Token.field?).run (.field w :: ts) =
          (w :: ((Reader.takeRun Token.field?).run ts).1,
            ((Reader.takeRun Token.field?).run ts).2) := rfl
      rw [List.cons_append, taken, ih more, List.dropLast_cons_of_ne_nil more,
        List.getLast_cons more]

/-- The colons come back between the parts. -/
theorem run_takeOperand_parts (hne : ws ≠ []) (h : ∀ w ∈ ws, IsTimeWord w) (s : Scope)
    (rest : List Token) :
    (takeOperand s).run (partTokens ws ++ rest) = (Text.join ":" ws, rest) := by
  have last := run_takeValue_word (h _ (List.getLast_mem hne)) s rest
  have run := run_takeRun_parts hne rest
  match ws with
  | [w] => rfl
  | w :: v :: ws =>
      rw [takeOperand, Reader.run_bind, Reader.run_peek]
      simp only [partTokens_cons_cons, List.cons_append, List.head?_cons] at run ⊢
      rw [Reader.run_bind, run, Reader.run_bind, last, Reader.run_pure, Option.toList_some,
        List.dropLast_concat_getLast hne]

/-- What has a digit in it is no sign that waits for a value. -/
theorem run_takeComparison_of_digit {v : Text} (h : ∃ d ∈ v, d.isDigit = true) (s : Scope)
    (rest : List Token) : (takeComparison s v).run rest = (v, rest) := by
  have ne {u : Text} (hu : u.any Char.isDigit = false) : v ≠ u := Text.ne_of_digit h hu
  have sign : (takeSign v).run rest = (v, rest) := by
    simp [takeSign, ne (u := ['>']) (by decide), ne (u := ['<']) (by decide)]
  have other : Time.comparisons.contains v = false := by
    simp [Time.comparisons, ne (u := ['>']) (by decide), ne (u := ['<']) (by decide),
      ne (u := ['>', '=']) (by decide), ne (u := ['<', '=']) (by decide)]
  rw [takeComparison, Reader.run_bind, sign, other]
  rfl

/-- The tokens of an offset, left out when it is empty. -/
def offsetTokens (o : Text) : List Token := if o = [] then [] else [.word "offset", .word o]

theorem run_takeOffset {o : Text} (h : o = [] ∨ IsTimeWord o) (s : Scope) :
    (takeOffset s).run (offsetTokens o) = (o, []) := by
  rcases h with rfl | word
  · rfl
  · have keyword (rest : List Token) :
        (Reader.eatWord "offset").run (.word "offset" :: rest) = (true, rest) :=
      Reader.run_eatWord_of_isKeyword (by decide)
    rw [offsetTokens, if_neg word.nonempty, takeOffset, Reader.run_bind, keyword]
    simp [Reader.takeValueD, run_takeValue_word word]

/-- Behind a sign of two characters only a single value is taken. -/
theorem run_takeComparison_sign {c : Char} (hc : c = '>' ∨ c = '<') (s : Scope)
    (rest : List Token) : (takeComparison s [c]).run (.word ['='] :: rest) =
      ([c, '='] ++ ((Reader.takeValueD s []).run rest).1,
        ((Reader.takeValueD s []).run rest).2) := by
  have sign : (takeSign [c]).run (.word ['='] :: rest) = ([c, '='], rest) := by
    rcases hc with rfl | rfl <;> rfl
  have waits : Time.comparisons.contains [c, '='] = true := by
    rcases hc with rfl | rfl <;> rfl
  rw [takeComparison, Reader.run_bind, sign, if_pos waits]
  rfl

theorem run_read_time {ts us vs ws : List Token} {v x o : Text}
    (operand : (takeOperand s).run ts = (v, us)) (compare : (takeComparison s v).run us = (x, vs))
    (offset : (takeOffset s).run vs = (o, ws)) :
    (Time.read s).run ts = ([.text x, .text o], ws) := by
  simp [Time.read, operand, compare, offset]

end Filter

/-! ### The whole filter -/

/-- The time filter for a text, with an offset. -/
def timeFilter (x o : Text) : Operation := { id := .time, params := [.text x, .text o] }

section Whole

open LogQuery.Filter (offsetTokens)

variable {s : Scope} {x o : Text} {ts us : List Token} {ps : List Param}

/-- Behind the time field a time filter is read, unless a call comes first. -/
theorem readNext_time {onlyFilters : Bool} (call : Reader.callName ts = [])
    (read : (Filter.Time.read s).run ts = (ps, us)) :
    (Query.readNext s onlyFilters).run (.field "_time" :: ts) =
      ([{ id := .time, params := ps }], us) := by
  have name : (Reader.takeFieldName s).run (.field "_time" :: ts) =
      (some ("_time" : Text), ts) := rfl
  have reserved : Query.reservedField? (some ("_time" : Text)) ts = some .time := by
    rw [Query.reservedField?, call]
    rfl
  have operation : (readOperation s .time (some ("_time" : Text))).run ts =
      ({ id := .time, params := ps }, us) := by
    have taken : ((define s .time).read (some ("_time" : Text))).run ts = (ps, us) := read
    rw [readOperation, Reader.run_bind, taken]
    rfl
  have round : (Query.readFilterRound s onlyFilters (some ("_time" : Text)) []).run ts =
      (.done [{ id := .time, params := ps }], us) := by
    rw [Query.readFilterRound_reserved .time reserved, operation]
  rw [Query.readNext, Reader.run_bind, name]
  exact Query.readFilter_run round

theorem write_timeFilter (x o : Text) : (define {} .time).write (timeFilter x o) [] =
    "_time:" ++ (x ++ clause " offset " o) := by
  change afterFilter [] ("_time:" ++ x ++ clause " offset " o) = _
  rw [List.append_assoc]
  rfl

theorem spells_offset (h : o = [] ∨ IsTimeWord o) (hx : Spells 63 x ts) :
    Spells 63 (x ++ clause " offset " o) (ts ++ offsetTokens o) := by
  rcases h with rfl | word
  · simpa [clause, offsetTokens] using hx
  · have keyword : Spells 63 "offset" [.word "offset"] := .name (by decide)
    have spells := hx.space (keyword.space word.spells)
    simpa [clause, offsetTokens, word.nonempty] using spells

theorem isInner_offset (h : o = [] ∨ IsTimeWord o) : ∀ t ∈ offsetTokens o, t.isInner = true := by
  rcases h with rfl | word
  · simp [offsetTokens]
  · have keyword : (Token.word "offset").isInner = true := by decide
    simpa [offsetTokens, word.nonempty] using ⟨keyword, word.isInner_word⟩

/-- A time filter alone is one segment, with the tokens of its text behind the time field. -/
theorem readOperations_timeFilter (hx : Spells 63 x ts) (inner : ∀ t ∈ ts, t.isInner = true)
    (ho : o = [] ∨ IsTimeWord o) :
    Query.readOperations (writeOperations [timeFilter x o]) "_msg" =
      Query.readSegment {} false (.field "_time" :: (ts ++ offsetTokens o)) := by
  have field : Lexes 63 "_time:" [.field "_time"] :=
    Lexes.field (w := "_time") (by simp [isPlain])
  have spells : Spells 63 ("_time:" ++ (x ++ clause " offset " o))
      (.field "_time" :: (ts ++ offsetTokens o)) :=
    .append_left field (by simp [Text.isBlank]) (spells_offset ho hx)
  have written : writeOperations [timeFilter x o] = "_time:" ++ (x ++ clause " offset " o) := by
    have text : writeOperations [timeFilter x o] =
        ((define {} .time).write (timeFilter x o) []).trim :=
      writeOperations_filter rfl rfl
    rw [text, write_timeFilter, spells.tight.trim_eq]
  rw [written]
  refine Query.operations_segment (by simp) ?_ (tokenize_of_spells spells)
  intro t ht
  simp only [List.mem_cons, List.mem_append] at ht
  rcases ht with rfl | ht | ht
  · decide
  · exact inner t ht
  · exact isInner_offset ho t ht

/-- The filter is read back if its tokens are read as its text. -/
theorem readOperations_timeFilter_eq (hx : Spells 63 x ts) (inner : ∀ t ∈ ts, t.isInner = true)
    (ho : o = [] ∨ IsTimeWord o) (call : Reader.callName (ts ++ offsetTokens o) = [])
    (read : (Filter.Time.read {}).run (ts ++ offsetTokens o) = ([.text x, .text o], [])) :
    Query.readOperations (writeOperations [timeFilter x o]) "_msg" = [timeFilter x o] := by
  rw [readOperations_timeFilter hx inner ho]
  exact Query.readSegment_run (by simp) (readNext_time call read)
    (by simp [timeFilter, OperationId.category])

/-! ### Signs of one character -/

theorem callName_parts (hne : ws ≠ []) (o : Text) :
    Reader.callName (partTokens ws ++ offsetTokens o) = [] := by
  match ws with
  | [w] =>
      unfold offsetTokens
      split
      · rfl
      · rfl
  | w :: v :: ws => rfl

/-- Parts with no sign before them, or with a sign that belongs to the first of them. -/
theorem readOperations_parts (hne : ws ≠ []) (hws : ∀ w ∈ ws, IsTimeWord w)
    (ho : o = [] ∨ IsTimeWord o) :
    Query.readOperations (writeOperations [timeFilter (Text.join ":" ws) o]) "_msg" =
      [timeFilter (Text.join ":" ws) o] := by
  have digit := exists_digit_join hne hws
  exact readOperations_timeFilter_eq (spells_parts hne hws) (isInner_parts hws) ho
    (callName_parts hne o) (Filter.run_read_time (Filter.run_takeOperand_parts hne hws {} _)
      (Filter.run_takeComparison_of_digit digit {} _) (Filter.run_takeOffset ho {}))

variable {c : Char}

theorem readOperations_short_sign (hc : c = '>' ∨ c = '<') (hne : ws ≠ [])
    (hws : ∀ w ∈ ws, IsTimeWord w) (ho : o = [] ∨ IsTimeWord o) :
    Query.readOperations (writeOperations [timeFilter ([c] ++ Text.join ":" ws) o]) "_msg" =
      [timeFilter ([c] ++ Text.join ":" ws) o] := by
  obtain ⟨w, ws, rfl⟩ := List.exists_cons_of_ne_nil hne
  have words : ∀ v ∈ (c :: w) :: ws, IsTimeWord v := by
    simpa using ⟨(hws w (by simp)).cons hc, fun v hv => hws v (by simp [hv])⟩
  have read := readOperations_parts (List.cons_ne_nil _ _) words ho
  rwa [Text.join_cons_cons] at read

/-! ### Signs of two characters -/

/-- The tokens of a sign that an equality sign ends. -/
def signTokens (c : Char) : List Token := [.word [c], .word ['=']]

theorem spells_sign (hc : c = '>' ∨ c = '<') (hx : Spells 63 x ts) :
    Spells 63 ([c, '='] ++ x) (signTokens c ++ ts) := by
  have plain : ∀ d ∈ [c], isPlain d = true := by rcases hc with rfl | rfl <;> simp [isPlain]
  have visible : Text.isBlank c = false := by rcases hc with rfl | rfl <;> decide
  have sign : Spells 63 [c] [.word [c]] := .word (.singleton visible) plain
  exact .append_left (sign.append_separator (by simp)) (by simpa using visible) hx

theorem isInner_sign (hc : c = '>' ∨ c = '<') : ∀ t ∈ signTokens c, t.isInner = true := by
  rcases hc with rfl | rfl <;> decide

/-- A single value is taken behind the sign. -/
theorem readOperations_sign (hc : c = '>' ∨ c = '<') (hw : IsTimeWord w)
    (ho : o = [] ∨ IsTimeWord o) :
    Query.readOperations (writeOperations [timeFilter ([c, '='] ++ w) o]) "_msg" =
      [timeFilter ([c, '='] ++ w) o] := by
  have inner : ∀ t ∈ signTokens c ++ [.word w], t.isInner = true := by
    intro t ht
    rcases List.mem_append.mp ht with ht | ht
    · exact isInner_sign hc t ht
    · rw [List.mem_singleton.mp ht]
      exact hw.isInner_word
  have operand : (Filter.Time.takeOperand {}).run (signTokens c ++ [.word w] ++ offsetTokens o) =
      ([c], .word ['='] :: .word w :: offsetTokens o) := rfl
  have value : (Reader.takeValueD {} []).run (.word w :: offsetTokens o) = (w, offsetTokens o) := by
    simp [Reader.takeValueD, Filter.run_takeValue_word hw]
  have compare := Filter.run_takeComparison_sign hc {} (.word w :: offsetTokens o)
  rw [value] at compare
  exact readOperations_timeFilter_eq (spells_sign hc hw.spells) inner ho rfl
    (Filter.run_read_time operand compare (Filter.run_takeOffset ho {}))

/-- Behind a sign no field is a value: the filter ends with its sign. -/
theorem run_read_sign_field (hc : c = '>' ∨ c = '<') (s : Scope) (u : Text) (us : List Token) :
    (Filter.Time.read s).run (signTokens c ++ .field u :: us) =
      ([.text [c, '='], .text []], .field u :: us) := by
  have operand : (Filter.Time.takeOperand s).run (signTokens c ++ .field u :: us) =
      ([c], .word ['='] :: .field u :: us) := rfl
  have compare := Filter.run_takeComparison_sign hc s (.field u :: us)
  have value : (Reader.takeValueD s []).run (.field u :: us) = ([], .field u :: us) := rfl
  have offset : (Filter.takeOffset s).run (.field u :: us) = ([], .field u :: us) := rfl
  rw [value] at compare
  exact Filter.run_read_time operand compare offset

theorem head?_readOperations_sign (hc : c = '>' ∨ c = '<') {w v : Text} {ws : List Text}
    (hws : ∀ u ∈ w :: v :: ws, IsTimeWord u) (ho : o = [] ∨ IsTimeWord o) :
    (Query.readOperations
        (writeOperations [timeFilter ([c, '='] ++ Text.join ":" (w :: v :: ws)) o]) "_msg").head? =
      some (timeFilter [c, '='] []) := by
  have inner : ∀ t ∈ signTokens c ++ partTokens (w :: v :: ws), t.isInner = true := by
    intro t ht
    exact (List.mem_append.mp ht).elim (isInner_sign hc t) (isInner_parts hws t)
  have spells := spells_sign hc (spells_parts (by simp) hws)
  have first (us : List Token) :
      (Query.readNext {} false).run ((.field "_time" :: signTokens c) ++ .field w :: us) =
        ([timeFilter [c, '='] []], .field w :: us) :=
    readNext_time rfl (run_read_sign_field hc {} w us)
  rw [readOperations_timeFilter spells inner ho, List.append_assoc, partTokens_cons_cons,
    List.cons_append, ← List.cons_append]
  exact Query.head?_readSegment (by simp) (first _) (by simp [timeFilter, OperationId.category])

theorem readOperations_long_sign_iff (hc : c = '>' ∨ c = '<') (hne : ws ≠ [])
    (hws : ∀ w ∈ ws, IsTimeWord w) (ho : o = [] ∨ IsTimeWord o) :
    Query.readOperations (writeOperations [timeFilter ([c, '='] ++ Text.join ":" ws) o]) "_msg" =
      [timeFilter ([c, '='] ++ Text.join ":" ws) o] ↔ ws.length = 1 := by
  match ws with
  | [w] => exact iff_of_true (readOperations_sign hc (hws w (by simp)) ho) rfl
  | w :: v :: ws =>
      refine iff_of_false (fun same => ?_) (by simp)
      have first := head?_readOperations_sign hc hws ho
      obtain ⟨d, hd, -⟩ := exists_digit_join (by simp) hws
      rw [same] at first
      simp only [timeFilter, List.head?_cons, Option.some.injEq, Operation.mk.injEq,
        List.cons.injEq, Param.text.injEq, List.append_right_eq_self] at first
      rw [first.2.1.1] at hd
      exact absurd hd List.not_mem_nil

end Whole

/-- A time filter is read back as it was written exactly when no equality sign stands in front of
its text or the text has no colon. -/
theorem readOperations_writeOperations_time_iff {sign offset : Text} {parts : List Text}
    (hsign : sign ∈ [] :: Filter.Time.comparisons) (hne : parts ≠ [])
    (hparts : ∀ p ∈ parts, IsTimePart p) (ho : offset = [] ∨ IsTimePart offset) :
    Query.readOperations (writeOperations [timeFilter (sign ++ Text.join ":" parts) offset])
        "_msg" = [timeFilter (sign ++ Text.join ":" parts) offset] ↔
      '=' ∉ sign ∨ parts.length = 1 := by
  have offset' : offset = [] ∨ IsTimeWord offset := ho.imp_right IsTimePart.isTimeWord
  have words : ∀ p ∈ parts, IsTimeWord p := fun p hp => (hparts p hp).isTimeWord
  simp only [Filter.Time.comparisons, List.mem_cons, List.not_mem_nil, or_false] at hsign
  rcases hsign with rfl | rfl | rfl | rfl | rfl
  · exact iff_of_true (readOperations_parts hne words offset') (.inl (by simp))
  · exact iff_of_true (readOperations_short_sign (.inl rfl) hne words offset') (.inl (by simp))
  · exact iff_of_true (readOperations_short_sign (.inr rfl) hne words offset') (.inl (by simp))
  · rw [or_iff_right (by simp)]
    exact readOperations_long_sign_iff (.inl rfl) hne words offset'
  · rw [or_iff_right (by simp)]
    exact readOperations_long_sign_iff (.inr rfl) hne words offset'

/-- A moment behind a sign of one character, with an offset. -/
theorem readOperations_writeOperations_time_moment :
    let clock : List Text := ["2024-01-01T10", "00", "00.5Z"]
    ((∀ p ∈ clock, IsTimePart p) ∧ IsTimePart "1h") ∧
      Query.readOperations (writeOperations [timeFilter (['<'] ++ Text.join ":" clock) "1h"])
        "_msg" = [timeFilter (['<'] ++ Text.join ":" clock) "1h"] := by
  intro clock
  have parts : ∀ p ∈ clock, IsTimePart p := by decide
  have offset : IsTimePart "1h" := by decide
  have nonempty : clock ≠ [] := by simp [clock]
  have sign : ['<'] ∈ [] :: Filter.Time.comparisons := by simp [Filter.Time.comparisons]
  have read := readOperations_writeOperations_time_iff sign nonempty parts (.inr offset)
  exact ⟨⟨parts, offset⟩, read.mpr (.inl (by simp))⟩

/-- A moment behind a sign of two characters falls apart. -/
theorem readOperations_time_sign_moment :
    let clock : List Text := ["2024-01-01T10", "00", "00Z"]
    let op := timeFilter (">=" ++ Text.join ":" clock) []
    (∀ p ∈ clock, IsTimePart p) ∧
      writeOperations [op] = ("_time:>=2024-01-01T10:00:00Z" : Text) ∧
      Query.readOperations (writeOperations [op]) "_msg" =
        [timeFilter ">=" [],
          { id := .word,
            params := [.text "2024-01-01T10", .text "00", .flag false, .flag false] },
          { id := .word, params := [.text "_msg", .text "00Z", .flag false, .flag false] }] ∧
      Query.readOperations (writeOperations [op]) "_msg" ≠ [op] := by
  exact ⟨by decide, rfl, rfl, by decide⟩

end LogQuery
