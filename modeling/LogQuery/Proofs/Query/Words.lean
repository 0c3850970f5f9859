import LogQuery.Proofs.Query.Origin
import LogQuery.Proofs.Token.Value

/-!
# Where the words of a query come from

A word filter is what a reader falls back on where nothing else fits. Wherever in a query it is
read, and whatever was read before it, its word is a value of one of the query's tokens, or such
a value without its last character, or empty. So a property that all of these have is a property
of every word filter that is read.
-/

namespace LogQuery

open Reader (From)

namespace Query

variable {s : Scope} {K : Text → Prop}

/-- The values of a token have the property, with or without their last character. -/
def Offers (s : Scope) (K : Text → Prop) (t : Token) : Prop := ∀ v ∈ t.values s, K v ∧ K v.dropLast

/-- The word filters among the operations are enabled and have all their parameters, and their
words have the property. -/
def WordsAre (K : Text → Prop) (ops : List Operation) : Prop :=
  ∀ op ∈ ops, op.id = .word → ∃ field word anyCase starred, K word ∧
    op = { id := .word, params := [.text field, .text word, .flag anyCase, .flag starred] }

theorem word_ofToken (s : Scope) (t : Token) :
    (Filter.Word.Head.ofToken s t).word = [] ∨
      (Filter.Word.Head.ofToken s t).word ∈ t.values s := by
  have items (items : List Token) : (Filter.Word.Head.ofItems s items).word = [] ∨
      (Filter.Word.Head.ofItems s items).word ∈ (items.filter Token.isValue).map s.value := by
    rw [Filter.Word.Head.ofItems]
    cases found : items.find? Token.isValue with
    | none => exact .inl rfl
    | some item =>
        have value := List.mem_filter.mpr ⟨List.mem_of_find?_eq_some found, List.find?_some found⟩
        exact .inr (List.mem_map_of_mem value)
  cases t with
  | quote v => exact .inr (List.mem_singleton_self _)
  | word v => exact .inr (List.mem_singleton_self _)
  | field v => exact .inr (List.mem_singleton_self _)
  | bracket callee raw inner =>
      rw [Filter.Word.Head.ofToken]
      split_ifs
      · exact items inner
      · exact items inner
      · exact .inl rfl
  | comment v => exact .inl rfl

section Words

variable (empty : K [])
include empty

/-- What is left out of a word that ends in a star is its last character. -/
theorem from_readOperation (id : OperationId) (field : Option Text) :
    From (Offers s K) (readOperation s id field) fun op => op.id = .word →
      ∃ field word anyCase starred, K word ∧
        op = { id := .word, params := [.text field, .text word, .flag anyCase, .flag starred] } := by
  by_cases other : id = .word
  swap
  · exact fun _ _ same => absurd same other
  subst other
  intro ts offers _
  have head : K (((ts.head?.map (Filter.Word.Head.ofToken s)).getD {}).word) ∧
      K (((ts.head?.map (Filter.Word.Head.ofToken s)).getD {}).word).dropLast := by
    cases ts with
    | nil => exact ⟨empty, empty⟩
    | cons t ts =>
        change K (Filter.Word.Head.ofToken s t).word ∧
          K (Filter.Word.Head.ofToken s t).word.dropLast
        rcases word_ofToken s t with nothing | value
        · rw [nothing]
          exact ⟨empty, empty⟩
        · exact offers t (by simp) _ value
  refine ⟨_, _, _, _, ?_, rfl⟩
  split
  · exact head.2
  · exact head.1

/-- A bracket that loses its callee keeps its items, and so its values. -/
theorem origin_words : Origin s (Offers s K) fun op => op.id = .word →
    ∃ field word anyCase starred, K word ∧
      op = { id := .word, params := [.text field, .text word, .flag anyCase, .flag starred] } where
  bare _ _ _ h := h
  negation := by simp [Operation.marker]
  chosen id field _ _ := from_readOperation empty id field
  named ts id offers _ := from_readOperation empty id none ts offers

/-- Every word filter of a query holds a value of one of the tokens of the text, with or without
its last character, or nothing. -/
theorem wordsAre_read {expr : Text} (h : ∀ t ∈ tokenize expr, Offers s K t) :
    WordsAre K (read { scope := s } expr).operations :=
  (origin_words empty).read_of_id (by decide) fun t ht _ => h t ht

end Words

end Query

end LogQuery
