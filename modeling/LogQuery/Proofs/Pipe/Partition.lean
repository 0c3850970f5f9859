import LogQuery.Proofs.Pipe.Pipeline

/-!
# Sorting within partitions

The pipes that take the first, the last or the top entries keep the text of their partition.
Sorting keeps the text of its tokens, with one space between any two of them. So a partition comes
back as it was written only if that is how it was written: a single field does, and a list with
commas does not, as no space stands before its commas.
-/

namespace LogQuery

open Lexer (Spells)

variable {F P w : Text} {ws : List Text} {d e : Decimal} {n m : Nat}

/-- Sorting by some fields within the groups of others. -/
def sortBy (F : Text) (desc : Bool) (limit offset : Decimal) (P : Text) : Operation :=
  { id := .sort, params := [.text F, .flag desc, .number limit, .number offset, .text P] }

/-- The text of tokens goes by their raw text, not by how deep their brackets are read. -/
theorem sourceText_tokensWithin_succ (k l : Nat) (t : Text) :
    Token.sourceText (Lexer.tokensWithin (k + 1) t) =
      Token.sourceText (Lexer.tokensWithin (l + 1) t) := by
  have source (x : Lexer.Lexeme) : (x.toToken (Lexer.tokensWithin k)).source? =
      (x.toToken (Lexer.tokensWithin l)).source? := by
    cases x <;> rfl
  simp [Token.sourceText, Lexer.tokensWithin, List.filterMap_map, source]

/-- Behind a star a sort is read back with its fields as they are written and its partition as
the text of the partition's tokens. -/
theorem readOperations_sortBy (hF : F.IsContent) (desc : Bool) (hd : d.IsWhole n)
    (he : e.IsWhole m) (hP : P.IsContent) :
    Query.readOperations (writeOperations [star, sortBy F desc d e P]) "_msg" =
      [star, sortBy F desc (.ofInt n) (.ofInt m) (Token.sourceText (tokenize P))] := by
  have text : Pipe.SortBy.partitionText P = Token.sourceText (tokenize P) :=
    sourceText_tokensWithin_succ 62 63 P
  have form : Query.PipePair {} (sortBy F desc d e P)
      (sortBy F desc (.ofInt n) (.ofInt m) (Pipe.SortBy.partitionText P),
        .word "sort" :: .word "by" :: .group F :: Pipe.SortBy.clauseTokens desc P n m) :=
    sort_form hF desc hd he hP
  rw [← text]
  exact star_opening.read_write_pipes rfl (.cons form .nil)

/-! ### Partitions that come back -/

/-- With a space before each comma or without one, a list of fields has the same tokens. -/
theorem spells_fields (hw : w.IsName) (hws : ∀ v ∈ ws, v.IsName) :
    Spells 63 (Text.join ", " (w :: ws)) (((w :: ws).intersperse [',']).map Token.word) ∧
      Spells 63 (Text.join " , " (w :: ws)) (((w :: ws).intersperse [',']).map Token.word) := by
  induction ws generalizing w with
  | nil => exact ⟨.name hw, .name hw⟩
  | cons v ws ih =>
      obtain ⟨close, apart⟩ := ih (hws v (by simp)) fun u hu => hws u (by simp [hu])
      have word : Spells 63 w [.word w] := .name hw
      have first := word.separated (c := ',') (by simp) close
      have spaced := word.spaced (c := ',') (by simp) apart
      exact ⟨by simpa [Text.join] using first, by simpa [Text.join] using spaced⟩

theorem join_intersperse (w : Text) (ws : List Text) :
    Text.join " " ((w :: ws).intersperse [',']) = Text.join " , " (w :: ws) := by
  induction ws generalizing w with
  | nil => rfl
  | cons v ws ih =>
      have rest := ih v
      cases ws with
      | nil => simp [Text.join]
      | cons u ws => simp_all [Text.join]

/-- The fields of a list come back with a space before each comma. -/
theorem sourceText_tokenize_fields (hws : ∀ v ∈ ws, v.IsName) :
    Token.sourceText (tokenize (Text.join ", " ws)) = Text.join " , " ws := by
  cases ws with
  | nil => rfl
  | cons w ws =>
      obtain ⟨close, apart⟩ := spells_fields (hws w (by simp))
        fun v hv => hws v (List.mem_cons_of_mem w hv)
      have sources (vs : List Text) : (vs.map Token.word).filterMap Token.source? = vs := by
        simp [List.filterMap_map, Function.comp_def, Token.source?]
      rw [tokenize_of_spells close, Token.sourceText, sources, join_intersperse]
      exact apart.tight.trim_eq

theorem length_join (separator w : Text) (ws : List Text) :
    (Text.join separator (w :: ws)).length =
      ((w :: ws).map List.length).sum + ws.length * separator.length := by
  induction ws generalizing w with
  | nil => simp [Text.join]
  | cons v ws ih =>
      have more : Text.join separator (w :: v :: ws) =
          w ++ separator ++ Text.join separator (v :: ws) := rfl
      rw [more, List.length_append, List.length_append, ih]
      simp only [List.map_cons, List.sum_cons, List.length_cons, Nat.succ_mul]
      omega

/-- So a list of fields comes back as it was written exactly if it has no comma. -/
theorem sourceText_tokenize_fields_iff (hws : ∀ v ∈ ws, v.IsName) :
    Token.sourceText (tokenize (Text.join ", " ws)) = Text.join ", " ws ↔ ws.length ≤ 1 := by
  rw [sourceText_tokenize_fields hws]
  cases ws with
  | nil => simp [Text.join]
  | cons w ws =>
      cases ws with
      | nil => simp [Text.join]
      | cons v ws =>
          refine ⟨fun same => ?_, fun short => by simp at short⟩
          have length := congrArg List.length same
          rw [length_join, length_join] at length
          simp at length

/-! ### The round trip -/

/-- A sort behind a star comes back, its numbers by their value, exactly if its partition is the
text of its own tokens. -/
theorem sameList_readOperations_sortBy_iff (hF : F.IsContent) (desc : Bool) (hd : d.IsWhole n)
    (he : e.IsWhole m) (hP : P.IsContent) :
    Operation.sameList [star, sortBy F desc d e P]
        (Query.readOperations (writeOperations [star, sortBy F desc d e P]) "_msg") = true ↔
      Token.sourceText (tokenize P) = P := by
  have first : star.sameValue star = true := rfl
  rw [readOperations_sortBy hF desc hd he hP]
  have same : (sortBy F desc d e P).sameValue
      (sortBy F desc (.ofInt n) (.ofInt m) (Token.sourceText (tokenize P))) =
      (P == Token.sourceText (tokenize P)) := by
    simp [sortBy, Operation.sameValue, Operation.sameParams, Param.sameValue, hd.same, he.same]
  rw [Operation.sameList, Operation.sameList, first, same, Operation.sameList, Bool.true_and,
    Bool.and_true, beq_iff_eq, eq_comm]

/-- A single field, which comes back, with an escape and a number sign among the fields to sort
by and a limit with a zero behind the point. -/
theorem sameList_readOperations_sortBy_field :
    let ops := [star, sortBy "a\\, #b" true ⟨false, 50, 1⟩ .zero "pod"]
    Text.IsContent "a\\, #b" ∧ Decimal.IsWhole ⟨false, 50, 1⟩ 5 ∧ Decimal.IsWhole .zero 0 ∧
      Text.IsContent "pod" ∧
      Operation.sameList ops (Query.readOperations (writeOperations ops) "_msg") = true := by
  have fields : Text.IsContent "a\\, #b" := by decide
  have limit : Decimal.IsWhole ⟨false, 50, 1⟩ 5 := ⟨by decide, by decide⟩
  have offset : Decimal.IsWhole .zero 0 := ⟨by decide, by decide⟩
  have partition : Text.IsContent "pod" := by decide
  exact ⟨fields, limit, offset, partition,
    (sameList_readOperations_sortBy_iff fields true limit offset partition).mpr (by decide)⟩

/-- Two fields with a comma between come back with a space before the comma. -/
theorem readOperations_sortBy_comma :
    Text.IsContent "a" ∧ Text.IsContent "b, c" ∧
      Query.readOperations (writeOperations [star, sortBy "a" false .zero .zero "b, c"]) "_msg" =
        [star, sortBy "a" false .zero .zero "b , c"] ∧
      Operation.sameList [star, sortBy "a" false .zero .zero "b, c"]
        (Query.readOperations (writeOperations [star, sortBy "a" false .zero .zero "b, c"])
          "_msg") = false := by
  have fields : Text.IsContent "a" := by decide
  have zero : Decimal.IsWhole .zero 0 := ⟨by decide, by decide⟩
  have partition : Text.IsContent "b, c" := by decide
  have text : Token.sourceText (tokenize "b, c") = ("b , c" : Text) := by decide
  have read := readOperations_sortBy fields false zero zero partition
  rw [text] at read
  refine ⟨fields, partition, read, ?_⟩
  rw [read]
  decide

end LogQuery
