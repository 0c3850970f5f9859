import LogQuery.Proofs.Quoting.Enclosed
import LogQuery.Proofs.Token.Reading
import LogQuery.Query.Reader
import Mathlib.Data.List.Forall2

/-!
# Operations and the tokens they are written as

What a round trip needs to know of one operation is gathered in a form: the tokens that its
text spells, and that these tokens are read as the operation again. Reading a filter may go on
with any tokens that do not cling to it, so filters can be put side by side. A pipe fills its
stage. Forms are put together into whole queries here on the side of reading: tokens are cut
into stages and runs, and every run gives back its operations.
-/

namespace LogQuery

namespace Token

/-- A token that the operation before it would take: a star, or a colon behind a space. -/
def clings : Token → Bool
  | word w => w == ['*']
  | field f => f.isEmpty
  | _ => false

/-- A token inside an operation: no pipe, connective or comment. -/
def isInner (t : Token) : Bool := !t.hasText "|" && !t.isConnective && !t.isComment

theorem isInner_quote {v : Text} (h : v ≠ ['|']) : (quote v).isInner = true := by
  simpa [isInner, hasText, text?, isConnective, word?, isComment] using h

end Token

open Lexer (Spells)

theorem Quotes.isInner {q v : Text} (h : Quotes q v) : (Token.quote q).isInner = true :=
  Token.isInner_quote (h.ne_separator (by simp))

/-- A word that needs no quotes is no connective. -/
theorem isInner_nameToken {v : Text} (h : v.IsName) : (nameToken v).isInner = true := by
  unfold nameToken
  split
  · exact (Quotes.enclose (lacksMark_of_isName h)).isInner
  · next bare =>
    have other (id : OperationId) : id.keyword ≠ v.lower := by
      rw [← h.trim_eq]
      exact Text.keyword_ne_of_mustQuote (by simpa using bare) id
    have bar : v ≠ ['|'] := h.ne ⟨'|', by simp, by decide⟩
    have connective : (Token.word v).isConnective = false := by
      rw [Token.isConnective, Token.word?, Option.any_some, Text.isOneOf, List.contains_eq_mem]
      simp only [List.mem_cons, List.not_mem_nil, or_false, decide_eq_false_iff_not, not_or]
      exact ⟨(other .and).symm, (other .or).symm, (other .not).symm⟩
    simpa [Token.isInner, Token.hasText, Token.text?, Token.isComment, connective] using bar

/-- A filter, and the tokens that stand for it. Its text may come after any other filter. -/
structure FilterForm (s : Scope) (op : Operation) (ts : List Token) : Prop where
  enabled : op.disabled = false
  category : op.id.category = .filters
  spells : Spells 63 ((define s op.id).write op []) ts
  inner : ∀ t ∈ ts, t.isInner = true
  nonempty : ts ≠ []
  first : ∀ t ∈ ts.head?, t.clings = false
  read : ∀ onlyFilters rest, (∀ t ∈ rest.head?, t.clings = false) →
    (Query.readNext s onlyFilters).run (ts ++ rest) = ([op], rest)

/-- A pipe, the operation its text is read back as, and the tokens that stand for it. The two
operations may differ in how a number is represented. -/
structure PipeForm (s : Scope) (op back : Operation) (ts : List Token) : Prop where
  enabled : op.disabled = false
  category : op.id.category = .pipes
  spells : ∀ inner, inner ≠ [] → ∃ expr, Spells 63 expr ts ∧
    (define s op.id).write op inner = inner ++ ' ' :: '|' :: ' ' :: expr
  inner : ∀ t ∈ ts, t.isInner = true
  nonempty : ts ≠ []
  read : (Query.readNext s false).run ts = ([back], [])
  backCategory : back.id.category = .pipes

/-- A filter or a connective between filters, with its tokens. -/
inductive Clause (s : Scope) : Operation → List Token → Prop
  | filter {op : Operation} {ts : List Token} (form : FilterForm s op ts) :
      Clause s op ts
  | connective {id : OperationId} (h : id.category = .operators) :
      Clause s (.marker id) [.word (id.keyword.map Char.toUpper)]

/-! ### Lists of forms -/

section Lists

variable {α β : Type} {R : α → β → Prop} {as : List α} {bs : List β}

theorem exists_forall₂ (h : ∀ a ∈ as, ∃ b, R a b) : ∃ bs, List.Forall₂ R as bs := by
  induction as with
  | nil => exact ⟨[], .nil⟩
  | cons a as ih =>
      obtain ⟨b, first⟩ := h a (by simp)
      obtain ⟨bs, rest⟩ := ih fun x hx => h x (by simp [hx])
      exact ⟨b :: bs, .cons first rest⟩

theorem exists_of_forall₂ (h : List.Forall₂ R as bs) {a : α} (ha : a ∈ as) : ∃ b, R a b := by
  induction h with
  | nil => simp at ha
  | cons first rest ih =>
      rcases List.mem_cons.mp ha with rfl | ha
      · exact ⟨_, first⟩
      · exact ih ha

/-- Operations that differ from those read back only in how numbers are represented. -/
theorem exists_forall₂_sameList {ops : List Operation} {γ : Type}
    {R : Operation → Operation × γ → Prop}
    (h : ∀ op ∈ ops, ∃ b, R op b ∧ op.sameValue b.1 = true) :
    ∃ bs, List.Forall₂ R ops bs ∧ Operation.sameList ops (bs.map Prod.fst) = true := by
  obtain ⟨bs, both⟩ := exists_forall₂ h
  refine ⟨bs, both.imp fun _ _ h => h.1, ?_⟩
  induction both with
  | nil => rfl
  | cons first rest ih => simp [Operation.sameList, first.2, ih fun o ho => h o (by simp [ho])]

end Lists

/-! ### Cutting tokens -/

theorem connective?_eq_none {t : Token} (h : t.isConnective = false) :
    Query.connective? t = none := by
  rw [Query.connective?, Option.bind_eq_none_iff]
  intro w hw
  rw [Token.isConnective, hw] at h
  simp only [Option.any_some, Text.isOneOf, List.contains_eq_mem, List.mem_cons, List.not_mem_nil,
    or_false, decide_eq_false_iff_not, not_or] at h
  simp only [List.find?_eq_none, List.mem_cons, List.not_mem_nil, or_false, beq_iff_eq]
  rintro id (rfl | rfl | rfl) heq
  · exact h.1 heq.symm
  · exact h.2.1 heq.symm
  · exact h.2.2 heq.symm

namespace Segment

variable {cut : Token → Bool} {ts rest : List Token} {bar : Token}

theorem splitAt_of_none (hne : ts ≠ []) (h : ∀ t ∈ ts, cut t = false) : splitAt cut ts = [ts] := by
  induction ts with
  | nil => contradiction
  | cons t ts ih =>
      have uncut : cut t = false := h t (by simp)
      cases ts with
      | nil => simp [splitAt, uncut]
      | cons u us =>
          rw [splitAt, uncut, ih (by simp) fun v hv => h v (by simp [hv])]
          rfl

/-- The tokens before a cut are a part of their own. -/
theorem splitAt_append (h : ∀ t ∈ ts, cut t = false) (hbar : cut bar = true) :
    splitAt cut (ts ++ bar :: rest) = ts :: splitAt cut rest := by
  induction ts with
  | nil => simp [splitAt, hbar]
  | cons t ts ih =>
      rw [List.cons_append, splitAt, h t (by simp), ih fun u hu => h u (by simp [hu])]
      rfl

/-- Parts that follow bars one by one are cut where the bars stand. -/
theorem splitAt_flatMap {parts : List (List Token)} (hne : ts ≠ [])
    (h : ∀ t ∈ ts, cut t = false) (hbar : cut bar = true)
    (hparts : ∀ p ∈ parts, p ≠ [] ∧ ∀ t ∈ p, cut t = false) :
    splitAt cut (ts ++ parts.flatMap (bar :: ·)) = ts :: parts := by
  induction parts generalizing ts with
  | nil => simpa using splitAt_of_none hne h
  | cons p ps ih =>
      obtain ⟨pne, hp⟩ := hparts p (by simp)
      rw [List.flatMap_cons, List.cons_append, splitAt_append h hbar,
        ih pne hp fun q hq => hparts q (by simp [hq])]

theorem runs_of_none (hne : ts ≠ []) (h : ∀ t ∈ ts, t.isConnective = false) : runs ts = [ts] := by
  induction ts with
  | nil => contradiction
  | cons t ts ih =>
      have free : t.isConnective = false := h t (by simp)
      cases ts with
      | nil => simp [runs, free]
      | cons u us =>
          rw [runs, free, ih (by simp) fun v hv => h v (by simp [hv])]
          rfl

/-- A connective ends the run before it and is one itself. -/
theorem runs_append (h : ∀ t ∈ ts, t.isConnective = false) (hbar : bar.isConnective = true) :
    runs (ts ++ bar :: rest) = ts :: [bar] :: runs rest := by
  induction ts with
  | nil => simp [runs, hbar]
  | cons t ts ih =>
      rw [List.cons_append, runs, h t (by simp), ih fun u hu => h u (by simp [hu])]
      rfl

end Segment

end LogQuery
