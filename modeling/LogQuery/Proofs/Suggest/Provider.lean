import LogQuery.Proofs.Suggest.Cache
import LogQuery.Suggest.Provider

/-!
# Caching changes no answer

Every pair that a provider keeps is a request with the sorted answer of the store. A hit
therefore gives what asking would have given, whatever was asked, dropped or refused before.
-/

namespace LogQuery

open BoundedCache (RecentPairs)

/-- The sorted hits of a request, asked for every time. -/
def SuggestSource.fetch (source : SuggestSource) (r : SuggestRequest) :
    Except Error (List Hit) :=
  if r.isFieldless then .ok [] else (source r).map Hit.sort

/-- The same with a second try for the whole store. -/
def SuggestSource.fetchOrUnscoped (source : SuggestSource) (r : SuggestRequest) :
    Except Error (List Hit) :=
  match source.fetch r with
  | .ok hits => .ok hits
  | .error e => if r.query.isEmpty then .error e else source.fetch r.unscoped

/-- What can be asked of a provider. -/
inductive SuggestCall
  | fetch (r : SuggestRequest)
  | fetchOrUnscoped (r : SuggestRequest)
  deriving DecidableEq, Repr

namespace SuggestCall

/-- What a call gives without a cache. -/
def direct (source : SuggestSource) : SuggestCall → Except Error (List Hit)
  | fetch r => source.fetch r
  | fetchOrUnscoped r => source.fetchOrUnscoped r

/-- How often the store may be asked. -/
def tries : SuggestCall → Nat
  | fetch _ => 1
  | fetchOrUnscoped _ => 2

end SuggestCall

namespace Provider

variable {source : SuggestSource} {capacity : Nat} {p : Provider}

/-- The answer to a call, and the provider behind it. -/
def answer (source : SuggestSource) (p : Provider) :
    SuggestCall → Except Error (List Hit) × Provider
  | .fetch r => p.fetch source r
  | .fetchOrUnscoped r => p.fetchOrUnscoped source r

/-- The answers to calls in turn. -/
def answers (source : SuggestSource) (p : Provider) :
    List SuggestCall → List (Except Error (List Hit))
  | [] => []
  | call :: calls => (p.answer source call).1 :: answers source (p.answer source call).2 calls

/-- The provider behind calls. -/
def after (source : SuggestSource) (p : Provider) : List SuggestCall → Provider
  | [] => p
  | call :: calls => after source (p.answer source call).2 calls

/-- The cache stands for pairs of a request and what the store answers to it. -/
def IsFaithful (source : SuggestSource) (capacity : Nat) (p : Provider) : Prop :=
  ∃ l : RecentPairs SuggestRequest (List Hit) capacity,
    p.cache.Mirrors l ∧ ∀ e ∈ l.pairs, (source e.1).map Hit.sort = .ok e.2

/-- A step of a provider: it answers as asking directly does, it asks the store at most
`tries` times, and the cache stays faithful. -/
structure Steps (source : SuggestSource) (capacity : Nat) (p : Provider) (tries : Nat)
    (direct : Except Error (List Hit)) (step : Except Error (List Hit) × Provider) : Prop where
  same : step.1 = direct
  asks : step.2.calls ≤ p.calls + tries
  keeps : p.calls ≤ step.2.calls
  faithful : step.2.IsFaithful source capacity

theorem isFaithful_start (source : SuggestSource) (capacity : Nat) :
    (start capacity).IsFaithful source capacity := by
  refine ⟨RecentPairs.empty capacity, .start capacity, ?_⟩
  intro e mem
  cases mem

namespace IsFaithful

theorem cachedSize_le (h : p.IsFaithful source capacity) : p.cachedSize ≤ capacity := by
  obtain ⟨l, mirrors, -⟩ := h
  exact mirrors.size_le

/-- What is kept is what the store answers. -/
theorem eq_of_get (h : p.IsFaithful source capacity) {r : SuggestRequest} {hits : List Hit}
    (hit : (p.cache.get r).1 = some hits) : (source r).map Hit.sort = .ok hits := by
  obtain ⟨l, mirrors, answered⟩ := h
  rw [(mirrors.get r).1] at hit
  exact answered _ (BoundedCache.mem_of_lookup hit)

/-- A request that the store refuses is not kept. -/
theorem not_contains (h : p.IsFaithful source capacity) {r : SuggestRequest} {e : Error}
    (refused : source r = .error e) : p.cache.contains r = false := by
  obtain ⟨l, mirrors, answered⟩ := h
  rw [Bool.eq_false_iff]
  intro held
  obtain ⟨pair, mem, rfl⟩ := List.mem_map.1 ((mirrors.contains_iff r).1 held)
  have := answered pair mem
  rw [refused] at this
  cases this

theorem ask (h : p.IsFaithful source capacity) (r : SuggestRequest) :
    Steps source capacity p 1 ((source r).map Hit.sort) (p.ask source r) := by
  obtain ⟨l, mirrors, answered⟩ := h
  rw [Provider.ask]
  cases asked : source r with
  | error e => exact ⟨rfl, Nat.le_refl _, Nat.le_succ _, l, mirrors, answered⟩
  | ok hits =>
    refine ⟨rfl, Nat.le_refl _, Nat.le_succ _, _, mirrors.insert r (Hit.sort hits), ?_⟩
    intro e mem
    rcases RecentPairs.mem_of_mem_insert mem with old | rfl
    · exact answered e old
    · show (source r).map Hit.sort = .ok (Hit.sort hits)
      rw [asked]
      rfl

theorem fetch (h : p.IsFaithful source capacity) (r : SuggestRequest) :
    Steps source capacity p 1 (source.fetch r) (p.fetch source r) := by
  rw [Provider.fetch, SuggestSource.fetch]
  by_cases fieldless : r.isFieldless
  · rw [if_pos fieldless, if_pos fieldless]
    exact ⟨rfl, Nat.le_succ _, Nat.le_refl _, h⟩
  · rw [if_neg fieldless, if_neg fieldless]
    cases hit : p.cache.get r with
    | mk found cache =>
      cases found with
      | none => exact h.ask r
      | some hits =>
        have same : (source r).map Hit.sort = .ok hits := h.eq_of_get (by rw [hit])
        obtain ⟨l, mirrors, answered⟩ := h
        have next : cache.Mirrors (l.get r).2 := by simpa only [hit] using (mirrors.get r).2
        refine ⟨same.symm, Nat.le_succ _, Nat.le_refl _, _, next, ?_⟩
        intro e mem
        exact answered e (RecentPairs.mem_of_mem_get mem)

theorem fetchOrUnscoped (h : p.IsFaithful source capacity) (r : SuggestRequest) :
    Steps source capacity p 2 (source.fetchOrUnscoped r) (p.fetchOrUnscoped source r) := by
  have first := h.fetch r
  rw [Provider.fetchOrUnscoped, SuggestSource.fetchOrUnscoped, ← first.same]
  cases fetched : p.fetch source r with
  | mk result next =>
    rw [fetched] at first
    cases result with
    | ok hits => exact ⟨rfl, Nat.le_succ_of_le first.asks, first.keeps, first.faithful⟩
    | error e =>
      dsimp only
      by_cases blank : r.query.isEmpty
      · rw [if_pos blank, if_pos blank]
        exact ⟨rfl, Nat.le_succ_of_le first.asks, first.keeps, first.faithful⟩
      · rw [if_neg blank, if_neg blank]
        have second := first.faithful.fetch r.unscoped
        exact ⟨second.same, Nat.le_trans second.asks (Nat.succ_le_succ first.asks),
          Nat.le_trans first.keeps second.keeps, second.faithful⟩

theorem answer (h : p.IsFaithful source capacity) (call : SuggestCall) :
    Steps source capacity p call.tries (call.direct source) (p.answer source call) := by
  cases call with
  | fetch r => exact h.fetch r
  | fetchOrUnscoped r => exact h.fetchOrUnscoped r

theorem answers_eq (h : p.IsFaithful source capacity) (calls : List SuggestCall) :
    p.answers source calls = calls.map (SuggestCall.direct source) := by
  induction calls generalizing p with
  | nil => rfl
  | cons call calls ih =>
    have step := h.answer call
    rw [answers, List.map_cons, step.same, ih step.faithful]

theorem after (h : p.IsFaithful source capacity) (calls : List SuggestCall) :
    (p.after source calls).IsFaithful source capacity := by
  induction calls generalizing p with
  | nil => exact h
  | cons call calls ih => exact ih (h.answer call).faithful

end IsFaithful

/-- Whatever a provider was asked before, it answers as the store does when it is asked
every time; it keeps no more answers than its capacity and no refused request, and it asks
the store once for a fetch and twice at most for a fetch with a second try. -/
theorem answers_eq_direct (source : SuggestSource) (capacity : Nat)
    (calls : List SuggestCall) :
    let p := (start capacity).after source calls
    (start capacity).answers source calls = calls.map (SuggestCall.direct source) ∧
      p.cachedSize ≤ capacity ∧
      (∀ r e, source r = .error e → p.cache.contains r = false) ∧
      ∀ call, p.calls ≤ (p.answer source call).2.calls ∧
        (p.answer source call).2.calls ≤ p.calls + call.tries := by
  intro p
  have new := isFaithful_start source capacity
  have faithful : p.IsFaithful source capacity := new.after calls
  refine ⟨new.answers_eq calls, faithful.cachedSize_le, ?_, ?_⟩
  · intro r e refused
    exact faithful.not_contains refused
  · intro call
    exact ⟨(faithful.answer call).keeps, (faithful.answer call).asks⟩

end Provider

end LogQuery
