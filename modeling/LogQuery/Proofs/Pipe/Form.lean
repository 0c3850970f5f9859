import LogQuery.Proofs.Query.Clause
import LogQuery.Proofs.Query.Written

/-!
# Pipes behind their keywords

A pipe is written as its keyword with clauses behind it. Reading finds the pipe by the
keyword, takes that off and leaves the clauses to the pipe's own reader.
-/

namespace LogQuery

open Lexer (Spells)

/-- The keyword opens the pipe and is taken off before the pipe is read. -/
def OpensPipe (id : OperationId) : Prop :=
  id.category = .pipes ∧ id ∉ [OperationId.jsonArrayLen, .hash, .len]

instance (id : OperationId) : Decidable (OpensPipe id) :=
  inferInstanceAs (Decidable (id.category = .pipes ∧
    id ∉ [OperationId.jsonArrayLen, .hash, .len]))

variable {s : Scope} {id : OperationId} {ts : List Token}

theorem isInner_keyword (h : id.category ≠ .operators) :
    (Token.word id.keyword).isInner = true := by
  cases id <;> first | rfl | exact absurd rfl h

theorem pipeOfKeyword?_keyword (h : id.category = .pipes) :
    Query.pipeOfKeyword? (Text.lower id.keyword) = some id := by
  cases id <;> first | contradiction | decide

theorem run_afterKeyword_word {α : Type} (r : Reader α) (w : Text) (ts : List Token) :
    (Query.afterKeyword r).run (.word w :: ts) = r.run ts := rfl

theorem run_readPipe?_keyword (h : OpensPipe id) (ts : List Token) :
    (Query.readPipe? s).run (.word id.keyword :: ts) =
      (some [{ id, params := (((define s id).read none).run ts).1 }],
        (((define s id).read none).run ts).2) := by
  obtain ⟨category, taken⟩ := h
  simp only [List.mem_cons, List.not_mem_nil, or_false, not_or] at taken
  have notFilter : (Text.lower id.keyword == "filter" || Text.lower id.keyword == "where") =
      false := by
    cases id <;> first | contradiction | decide
  have opened := pipeOfKeyword?_keyword category
  rw [Query.readPipe?, Reader.run_bind, Reader.run_peek]
  simp only [List.head?_cons, notFilter, opened]
  simp [taken, run_afterKeyword_word, readOperation]

theorem readNext_keyword (h : OpensPipe id) (hts : ∀ t ∈ ts.head?, t ≠ .field []) :
    (Query.readNext s false).run (.word id.keyword :: ts) =
      ([{ id, params := (((define s id).read none).run ts).1 }],
        (((define s id).read none).run ts).2) := by
  have noField := Reader.run_takeFieldName_none (s := s) (t := .word id.keyword) rfl hts
  simp [Query.readNext, noField, run_readPipe?_keyword h]

/-- Clauses behind the keyword of a pipe, and the parameters that they are read as. -/
theorem PipeForm.of_clauses {op : Operation} {kw : Text} {params : List Param} {tail : Text}
    (enabled : op.disabled = false) (opens : OpensPipe op.id) (keyword : op.id.keyword = kw)
    (clauses : Trail tail ts)
    (written : ∀ inner, (define s op.id).write op inner = afterPipe inner (kw ++ tail))
    (read : ((define s op.id).read none).run ts = (params, [])) :
    PipeForm s op { id := op.id, params } (.word kw :: ts) where
  enabled := enabled
  category := opens.1
  spells before hne := by
    refine ⟨kw ++ tail, ?_, ?_⟩
    · rw [← keyword]
      exact clauses.spells (.name (Text.isName_keyword op.id))
    · rw [written, afterPipe, if_neg (by simpa using hne)]
      simp
  inner t ht := by
    rcases List.mem_cons.mp ht with rfl | ht
    · rw [← keyword]
      exact isInner_keyword (by simp [opens.1])
    · exact clauses.inner t ht
  nonempty := by simp
  read := by
    have first : ∀ t ∈ ts.head?, t ≠ .field [] := by
      rintro t ht rfl
      exact absurd (clauses.noField _ (List.mem_of_mem_head? ht)) (by simp [Token.field?])
    rw [← keyword, readNext_keyword opens first, read]
  backCategory := opens.1

end LogQuery
