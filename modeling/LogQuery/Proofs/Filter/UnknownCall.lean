import LogQuery.Proofs.Filter.BareWord
import LogQuery.Proofs.Query.Clause

/-!
# Calls of unknown name

A call that no operation is known by falls to the word filter. The head of a word filter looks
into a bracket only behind `i` or behind no name at all, and makes an empty word of every other
bracket. So the call is taken whole, with its name and all that its bracket holds, and what comes
of it is the word filter that finds nothing but an empty field.
-/

namespace LogQuery

open Lexer (AllInert Spells)

/-- A name that no call is known by: no operation, no pipe, and none of the names with a meaning
for calls only. -/
structure IsUnknownCall (n : Text) : Prop extends IsFree n where
  unlisted : Text.lower n ∉ [("i" : Text), "in", "options"]

instance (n : Text) : Decidable (IsUnknownCall n) :=
  decidable_of_iff (IsFree n ∧ [("i" : Text), "in", "options"].contains (Text.lower n) = false) (by
    constructor
    · rintro ⟨free, unlisted⟩
      exact { free with unlisted := by simpa using unlisted }
    · intro h
      exact ⟨h.toIsFree, by simpa using h.unlisted⟩)

/-- A call as it is written. -/
def callText (n x : Text) : Text := n ++ '(' :: (x ++ [')'])

/-- The word filter that is left of an unknown call. -/
def emptyWord (f : Text) : Operation :=
  { id := .word, params := [.text f, .text [], .flag false, .flag false] }

variable {s : Scope} {f n x : Text}

namespace IsUnknownCall

theorem callFilter?_eq (h : IsUnknownCall n) (onlyFilters : Bool) (ts : List Token) :
    Query.callFilter? onlyFilters (Token.call n x :: ts) = none := by
  have unlisted := h.unlisted
  simp only [List.mem_cons, List.not_mem_nil, or_false, not_or] at unlisted
  obtain ⟨-, notIn, notOptions⟩ := unlisted
  -- every call that is listed has the keyword of its operation for a name, or is an `in` list
  have listed : ∀ p ∈ Query.calls, p.1 = p.2.keyword ∨ p.1 = ("in" : Text) := by decide
  have callee : Reader.callName (Token.call n x :: ts) = n := rfl
  rw [Query.callFilter?, callee]
  dsimp only
  split
  · next name id found =>
    have same : name = Text.lower n := by simpa using List.find?_some found
    rcases listed (name, id) (List.mem_of_find?_eq_some found) with keyword | isIn
    · exact absurd (keyword.symm.trans same) (h.keyword id)
    · exact absurd (same.symm.trans isIn) notIn
  · rw [beq_false_of_ne notOptions]
    rfl

theorem startsWord_call (h : IsUnknownCall n) (onlyFilters : Bool) (ts : List Token) :
    Query.StartsWord onlyFilters (.call n x) ts where
  bracket := by
    obtain ⟨c, cs, rfl⟩ := List.exists_cons_of_ne_nil h.nonempty
    rfl
  sign := rfl
  member := rfl
  call := h.callFilter?_eq onlyFilters ts
  compare := ⟨rfl, rfl⟩
  negation := ⟨rfl, rfl⟩
  stats := h.named?_eq .stats

/-- The head of a word filter takes nothing from the call. -/
theorem head_eq (h : IsUnknownCall n) : Filter.Word.Head.ofToken s (.call n x) = {} := by
  have notI : n ≠ ['i'] := by
    rintro rfl
    exact h.unlisted (by decide)
  simp [Filter.Word.Head.ofToken, Token.call, notI, h.nonempty]

theorem run_readOperation (h : IsUnknownCall n) {field : Option Text} {rest : List Token}
    (hrest : ∀ t ∈ rest.head?, t.clings = false) :
    (readOperation s .word field).run (Token.call n x :: rest) =
      ({ id := .word, params := [s.fieldParam field, .text [], .flag false, .flag false] },
        rest) := by
  have star : (Reader.eatWord ['*']).run rest = (false, rest) := run_eatWord_star hrest false
  simp [readOperation, define, Filter.Word.definition, Filter.Word.read, h.head_eq, star]

/-- Behind any field, the call is taken and an empty word filter of that field comes. -/
theorem readNext (h : IsUnknownCall n) (hs : s.escape = .all) (hf : IsFieldName f)
    (onlyFilters : Bool) {rest : List Token} (hrest : ∀ t ∈ rest.head?, t.clings = false) :
    (Query.readNext s onlyFilters).run (s.fieldTokens f ++ Token.call n x :: rest) =
      ([emptyWord f], rest) := by
  have round : (Query.readFilterRound s onlyFilters (s.namedField f) []).run
      (Token.call n x :: rest) = _ :=
    Query.readFilterRound_word _ (Scope.namedField_ne hf) (h.startsWord_call onlyFilters rest)
  rw [h.run_readOperation hrest, Scope.fieldParam_namedField hf.nonempty] at round
  exact Query.readNext_field hs hf.toIsName rfl (h.run_readPipe? (.inr ⟨_, _, rfl⟩) rest) round

end IsUnknownCall

/-- A query that is an unknown call behind a field reads as an empty word filter, whatever the
name and the argument are. -/
theorem readOperations_field_unknownCall (h : IsUnknownCall n) (hf : IsFieldName f)
    (hx : AllInert x) :
    Query.readOperations (Scope.fieldMark {} f ++ callText n x) "_msg" = [emptyWord f] := by
  have next : (Query.readNext {} false).run (Scope.fieldTokens {} f ++ [.call n x]) =
      ([emptyWord f], []) := h.readNext rfl hf false (by simp)
  have spells : Spells 63 (callText n x) [.call n x] := .call h.toIsName hx
  have inner : (Token.call n x).isInner = true := rfl
  apply Query.readOperations_field hf.toIsName spells (by simp) ?_ next
  · simp [emptyWord, OperationId.category]
  · simpa using inner

/-- Neither the name nor the argument of an unknown call is among the parameters that are read:
all these calls read as one and the same filter, which is written as an empty word. -/
theorem readOperations_unknownCall (h : IsUnknownCall n) (hx : AllInert x) :
    Query.readOperations (callText n x) "_msg" = [emptyWord "_msg"] ∧
      writeOperations (Query.readOperations (callText n x) "_msg") = ("\"\"" : Text) := by
  have unmarked : Scope.fieldMark {} "_msg" = [] := by
    simp [Scope.fieldMark, Scope.isDefaultField]
  have read : Query.readOperations (callText n x) "_msg" = [emptyWord "_msg"] := by
    have field := readOperations_field_unknownCall h isFieldName_default hx
    rwa [unmarked, List.nil_append] at field
  constructor
  · exact read
  · rw [read]
    decide

/-- A name with an underscore, and an argument of letters and digits. -/
theorem readOperations_unknownCall_starts_with :
    (IsUnknownCall "starts_with" ∧ AllInert "x86") ∧
      Query.readOperations "starts_with(x86)" "_msg" = [emptyWord "_msg"] := by
  have name : IsUnknownCall "starts_with" := by decide +kernel
  have argument : AllInert "x86" := by decide
  exact ⟨⟨name, argument⟩, (readOperations_unknownCall name argument).1⟩

/-- The texts of the parameters together have neither the name nor the argument in them. -/
theorem not_infix_unknownCall :
    let ops := Query.readOperations "foo(abc)" "_msg"
    let texts := ((ops.flatMap Operation.params).map Param.toText).flatten
    IsUnknownCall "foo" ∧ ops ≠ [] ∧ ¬("foo" : Text) <:+: texts ∧ ¬("abc" : Text) <:+: texts := by
  intro ops texts
  have name : IsUnknownCall "foo" := by decide +kernel
  exact ⟨name, by decide, by decide, by decide⟩

end LogQuery
