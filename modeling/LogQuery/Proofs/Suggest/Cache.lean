import LogQuery.Suggest.Cache
import Mathlib.Data.List.Nodup
import Mathlib.Data.List.Perm.Basic

/-!
# A bounded cache keeps what was used last

The reference is one list of pairs in the order of their last use. A cache keeps its entries
and its queue apart; `Mirrors` says how the two stand for one such list, every call keeps
it, and so the answers of a cache are those of the list.
-/

namespace LogQuery

namespace BoundedCache

variable {κ ν : Type} [DecidableEq κ]

/-! ## Entries with different keys -/

theorem isSome_lookup_iff (key : κ) (entries : List (κ × ν)) :
    (lookup key entries).isSome ↔ key ∈ entries.map Prod.fst := by
  simp [lookup, List.find?_isSome]

theorem mem_of_lookup {key : κ} {value : ν} {entries : List (κ × ν)}
    (found : lookup key entries = some value) : (key, value) ∈ entries := by
  obtain ⟨⟨k, v⟩, hit, rfl⟩ := Option.map_eq_some_iff.1 found
  have same : k = key := by simpa using List.find?_some hit
  exact same ▸ List.mem_of_find?_eq_some hit

theorem lookup_eq_some_iff {key : κ} {value : ν} {entries : List (κ × ν)}
    (distinct : (entries.map Prod.fst).Nodup) :
    lookup key entries = some value ↔ (key, value) ∈ entries := by
  constructor
  · exact mem_of_lookup
  · intro mem
    have held := (isSome_lookup_iff key entries).2 (List.mem_map_of_mem mem)
    obtain ⟨other, found⟩ := Option.isSome_iff_exists.1 held
    have same := List.inj_on_of_nodup_map distinct mem (mem_of_lookup found) rfl
    rw [found, (Prod.mk.inj same).2]

/-- With different keys the order of the entries does not matter. -/
theorem lookup_eq_of_perm (key : κ) {entries pairs : List (κ × ν)}
    (perm : entries.Perm pairs) (distinct : (pairs.map Prod.fst).Nodup) :
    lookup key entries = lookup key pairs := by
  have distinct' : (entries.map Prod.fst).Nodup := (perm.map Prod.fst).nodup_iff.2 distinct
  ext value
  rw [lookup_eq_some_iff distinct', lookup_eq_some_iff distinct, perm.mem_iff]

/-! ## The reference -/

/-- The list after a use of a key: its old pair goes and the new one is the last. -/
def use (key : κ) (value : ν) (pairs : List (κ × ν)) : List (κ × ν) :=
  pairs.filter (fun e => e.1 != key) ++ [(key, value)]

theorem map_fst_use (key : κ) (value : ν) (pairs : List (κ × ν)) :
    (use key value pairs).map Prod.fst =
      (pairs.map Prod.fst).filter (fun k => k != key) ++ [key] := by
  simp [use, List.filter_map, Function.comp_def]

theorem mem_use {key : κ} {value : ν} {pairs : List (κ × ν)} {e : κ × ν}
    (mem : e ∈ use key value pairs) : e ∈ pairs ∨ e = (key, value) := by
  rw [use, List.mem_append, List.mem_singleton] at mem
  exact mem.imp_left List.mem_of_mem_filter

theorem nodup_use (key : κ) (value : ν) {pairs : List (κ × ν)}
    (distinct : (pairs.map Prod.fst).Nodup) : ((use key value pairs).map Prod.fst).Nodup := by
  rw [map_fst_use, ← List.concat_eq_append]
  exact (distinct.filter _).concat (by simp)

theorem length_use_le (key : κ) (value : ν) (pairs : List (κ × ν)) :
    (use key value pairs).length ≤ pairs.length + 1 := by
  simpa [use] using List.length_filter_le _ pairs

/-- A use of a held key drops a pair for the one it adds. -/
theorem length_use_le_of_mem {key : κ} (value : ν) {pairs : List (κ × ν)}
    (held : key ∈ pairs.map Prod.fst) : (use key value pairs).length ≤ pairs.length := by
  obtain ⟨old, mem, rfl⟩ := List.mem_map.1 held
  have shorter : (pairs.filter fun e => e.1 != old.1).length < pairs.length :=
    List.length_filter_lt_length_iff_exists.2 ⟨old, mem, by simp⟩
  rw [use, List.length_append, List.length_singleton]
  omega

theorem filter_ne_of_not_mem {key : κ} {pairs : List (κ × ν)}
    (fresh : key ∉ pairs.map Prod.fst) : pairs.filter (fun e => e.1 != key) = pairs := by
  rw [List.filter_eq_self]
  intro e mem
  have : e.1 ≠ key := fun same => fresh (same ▸ List.mem_map_of_mem mem)
  simpa using this

theorem use_of_not_mem {key : κ} (value : ν) {pairs : List (κ × ν)}
    (fresh : key ∉ pairs.map Prod.fst) : use key value pairs = pairs ++ [(key, value)] := by
  rw [use, filter_ne_of_not_mem fresh]

/-- At most `capacity` pairs with different keys, from the least to the most recently used
one. -/
structure RecentPairs (κ ν : Type) (capacity : Nat) where
  pairs : List (κ × ν)
  distinct : (pairs.map Prod.fst).Nodup
  bounded : pairs.length ≤ capacity

/-- What can be asked of a cache. -/
inductive Call (κ ν : Type)
  | get (key : κ)
  | insert (key : κ) (value : ν)
  | contains (key : κ)
  | clear
  deriving DecidableEq, Repr

/-- What is answered. -/
inductive Answer (ν : Type)
  | value (found : Option ν)
  | held (isHeld : Bool)
  | done
  deriving DecidableEq, Repr

namespace RecentPairs

variable {capacity : Nat}

omit [DecidableEq κ] in
def empty (capacity : Nat) : RecentPairs κ ν capacity := ⟨[], List.nodup_nil, Nat.zero_le _⟩

/-- Reading a key is a use of it. -/
def get (l : RecentPairs κ ν capacity) (key : κ) : Option ν × RecentPairs κ ν capacity :=
  match found : lookup key l.pairs with
  | none => (none, l)
  | some value =>
    (some value,
      { pairs := use key value l.pairs
        distinct := nodup_use key value l.distinct
        bounded := Nat.le_trans
          (length_use_le_of_mem value (List.mem_map_of_mem (mem_of_lookup found))) l.bounded })

/-- Writing a key is a use of it, and the oldest pair goes when there are too many. -/
def insert (l : RecentPairs κ ν capacity) (key : κ) (value : ν) : RecentPairs κ ν capacity :=
  if fits : (use key value l.pairs).length ≤ capacity then
    { pairs := use key value l.pairs
      distinct := nodup_use key value l.distinct
      bounded := fits }
  else
    { pairs := (use key value l.pairs).tail
      distinct := by
        rw [List.map_tail]
        exact (nodup_use key value l.distinct).tail
      bounded := by
        have := length_use_le key value l.pairs
        have := l.bounded
        rw [List.length_tail]
        omega }

/-- The answer to a call, and the list behind it. -/
def answer (l : RecentPairs κ ν capacity) : Call κ ν → Answer ν × RecentPairs κ ν capacity
  | .get key => (.value (l.get key).1, (l.get key).2)
  | .insert key value => (.done, l.insert key value)
  | .contains key => (.held (lookup key l.pairs).isSome, l)
  | .clear => (.done, empty capacity)

/-- The answers to calls in turn, each with the number of pairs behind it. -/
def answers (l : RecentPairs κ ν capacity) : List (Call κ ν) → List (Answer ν × Nat)
  | [] => []
  | call :: calls =>
    ((l.answer call).1, (l.answer call).2.pairs.length) :: answers (l.answer call).2 calls

theorem get_of_none {l : RecentPairs κ ν capacity} {key : κ} (h : lookup key l.pairs = none) :
    l.get key = (none, l) := by
  rw [get]
  split <;> simp_all

theorem fst_get (l : RecentPairs κ ν capacity) (key : κ) :
    (l.get key).1 = lookup key l.pairs := by
  rw [get]
  split <;> simp_all

theorem pairs_get_of_some {l : RecentPairs κ ν capacity} {key : κ} {value : ν}
    (h : lookup key l.pairs = some value) : (l.get key).2.pairs = use key value l.pairs := by
  rw [get]
  split <;> simp_all

theorem pairs_insert_of_fits {l : RecentPairs κ ν capacity} {key : κ} {value : ν}
    (fits : (use key value l.pairs).length ≤ capacity) :
    (l.insert key value).pairs = use key value l.pairs := by
  rw [insert, dif_pos fits]

theorem pairs_insert_of_full {l : RecentPairs κ ν capacity} {key : κ} {value : ν}
    (full : ¬(use key value l.pairs).length ≤ capacity) :
    (l.insert key value).pairs = (use key value l.pairs).tail := by
  rw [insert, dif_neg full]

theorem mem_of_mem_get {l : RecentPairs κ ν capacity} {key : κ} {e : κ × ν}
    (mem : e ∈ (l.get key).2.pairs) : e ∈ l.pairs := by
  cases found : lookup key l.pairs with
  | none => rwa [get_of_none found] at mem
  | some value =>
    rw [pairs_get_of_some found] at mem
    rcases mem_use mem with old | rfl
    · exact old
    · exact mem_of_lookup found

theorem mem_of_mem_insert {l : RecentPairs κ ν capacity} {key : κ} {value : ν} {e : κ × ν}
    (mem : e ∈ (l.insert key value).pairs) : e ∈ l.pairs ∨ e = (key, value) := by
  by_cases fits : (use key value l.pairs).length ≤ capacity
  · exact mem_use (pairs_insert_of_fits fits ▸ mem)
  · exact mem_use (List.mem_of_mem_tail (pairs_insert_of_full fits ▸ mem))

end RecentPairs

/-! ## A cache and the list it stands for -/

/-- The answer to a call, and the cache behind it. -/
def answer (c : BoundedCache κ ν) : Call κ ν → Answer ν × BoundedCache κ ν
  | .get key => (.value (c.get key).1, (c.get key).2)
  | .insert key value => (.done, c.insert key value)
  | .contains key => (.held (c.contains key), c)
  | .clear => (.done, c.clear)

/-- The answers to calls in turn, each with the size behind it. -/
def answers (c : BoundedCache κ ν) : List (Call κ ν) → List (Answer ν × Nat)
  | [] => []
  | call :: calls => ((c.answer call).1, (c.answer call).2.size) :: answers (c.answer call).2 calls

/-- The cache behind calls. -/
def after (c : BoundedCache κ ν) : List (Call κ ν) → BoundedCache κ ν
  | [] => c
  | call :: calls => after (c.answer call).2 calls

/-- Writing a held key in place holds the same pairs as a use of it. -/
theorem replace_perm_use {key : κ} (value : ν) {pairs : List (κ × ν)}
    (distinct : (pairs.map Prod.fst).Nodup) (held : key ∈ pairs.map Prod.fst) :
    (replace key value pairs).Perm (use key value pairs) := by
  induction pairs with
  | nil => simp at held
  | cons e rest ih =>
    rw [List.map_cons, List.nodup_cons] at distinct
    by_cases same : e.1 = key
    · subst same
      -- the key stands at the front only, so the rest is the same on both sides
      have written : replace e.1 value (e :: rest) = (e.1, value) :: rest := by
        have untouched : ∀ f ∈ rest, (if f.1 == e.1 then (e.1, value) else f) = f := by
          intro f mem
          have : f.1 ≠ e.1 := fun h => distinct.1 (h ▸ List.mem_map_of_mem mem)
          simp [this]
        rw [replace, List.map_cons, List.map_congr_left untouched, List.map_id']
        simp
      have used : use e.1 value (e :: rest) = rest ++ [(e.1, value)] := by
        rw [← use_of_not_mem value distinct.1]
        simp [use]
      rw [written, used]
      exact (List.perm_append_singleton _ _).symm
    · have later : key ∈ rest.map Prod.fst := by simpa [Ne.symm same] using held
      have written : replace key value (e :: rest) = e :: replace key value rest := by
        simp [replace, same]
      have used : use key value (e :: rest) = e :: use key value rest := by
        simp [use, same]
      rw [written, used]
      exact (ih distinct.2 later).cons e

/-- Writing the value that a key has changes nothing. -/
theorem replace_eq_self {key : κ} {value : ν} {pairs : List (κ × ν)}
    (distinct : (pairs.map Prod.fst).Nodup) (found : lookup key pairs = some value) :
    replace key value pairs = pairs := by
  refine (List.map_congr_left fun e mem => ?_).trans (List.map_id pairs)
  by_cases same : e.1 = key
  · have pair : (key, value) = e :=
      List.inj_on_of_nodup_map distinct (mem_of_lookup found) mem same.symm
    simp [← pair]
  · simp [same]

/-- In a queue of different keys a held key moves to the end, as in a use of it. -/
theorem touch_eq {c : BoundedCache κ ν} {key : κ} (value : ν) {pairs : List (κ × ν)}
    (recency : c.recency = pairs.map Prod.fst) (distinct : (pairs.map Prod.fst).Nodup)
    (held : key ∈ pairs.map Prod.fst) :
    c.touch key = { c with recency := (use key value pairs).map Prod.fst } := by
  have queued : c.recency.contains key := by simpa [recency] using held
  rw [touch, if_pos queued, map_fst_use, recency, distinct.erase_eq_filter]

theorem add_of_room {c : BoundedCache κ ν} {key : κ} {value : ν}
    (room : c.size + 1 ≤ c.capacity) :
    c.add key value =
      { c with entries := c.entries ++ [(key, value)], recency := c.recency ++ [key] } := by
  have fits : ¬c.entries.length + 1 > c.capacity := Nat.not_lt.2 room
  simp only [add, size, List.length_append, List.length_singleton, if_neg fits]

theorem add_of_full {c : BoundedCache κ ν} {key oldest : κ} {value : ν} {rest : List κ}
    (full : c.capacity < c.size + 1) (recency : c.recency = oldest :: rest) :
    c.add key value =
      { c with
        entries := (c.entries ++ [(key, value)]).filter fun e => e.1 != oldest
        recency := rest ++ [key] } := by
  have exceeds : c.entries.length + 1 > c.capacity := full
  simp only [add, size, List.length_append, List.length_singleton, if_pos exceeds, evict, recency]

/-- With different keys, dropping the first key drops the first pair. -/
theorem filter_ne_head {e : κ × ν} {rest : List (κ × ν)}
    (distinct : ((e :: rest).map Prod.fst).Nodup) :
    (e :: rest).filter (fun f => f.1 != e.1) = rest := by
  rw [List.map_cons, List.nodup_cons] at distinct
  rw [List.filter_cons_of_neg (by simp), filter_ne_of_not_mem distinct.1]

/-- The entries are the pairs in some order, and the queue gives the order of use. -/
structure Mirrors {capacity : Nat} (c : BoundedCache κ ν) (l : RecentPairs κ ν capacity) :
    Prop where
  capacity_eq : c.capacity = capacity
  entries : c.entries.Perm l.pairs
  recency : c.recency = l.pairs.map Prod.fst

namespace Mirrors

variable {capacity : Nat} {c : BoundedCache κ ν} {l : RecentPairs κ ν capacity}

omit [DecidableEq κ] in
theorem start (capacity : Nat) :
    Mirrors ({ capacity } : BoundedCache κ ν) (RecentPairs.empty capacity) :=
  ⟨rfl, List.Perm.refl _, rfl⟩

omit [DecidableEq κ] in
theorem size_eq (h : Mirrors c l) : c.size = l.pairs.length := h.entries.length_eq

omit [DecidableEq κ] in
theorem size_le (h : Mirrors c l) : c.size ≤ capacity := by
  rw [h.size_eq]
  exact l.bounded

theorem lookup_eq (h : Mirrors c l) (key : κ) : lookup key c.entries = lookup key l.pairs :=
  lookup_eq_of_perm key h.entries l.distinct

theorem contains_iff (h : Mirrors c l) (key : κ) :
    c.contains key ↔ key ∈ l.pairs.map Prod.fst := by
  rw [contains, h.lookup_eq, isSome_lookup_iff]

/-- The queue holds each key of the cache once, and no other key. -/
theorem count_recency (h : Mirrors c l) (key : κ) :
    c.recency.count key = if c.contains key then 1 else 0 := by
  rw [h.recency]
  split
  case isTrue held => exact List.count_eq_one_of_mem l.distinct ((h.contains_iff key).1 held)
  case isFalse missing => exact List.count_eq_zero_of_not_mem (mt (h.contains_iff key).2 missing)

theorem get (h : Mirrors c l) (key : κ) :
    (c.get key).1 = lookup key l.pairs ∧ Mirrors (c.get key).2 (l.get key).2 := by
  rw [BoundedCache.get, h.lookup_eq]
  cases found : lookup key l.pairs with
  | none =>
    rw [RecentPairs.get_of_none found]
    exact ⟨rfl, h⟩
  | some value =>
    have held : key ∈ l.pairs.map Prod.fst := List.mem_map_of_mem (mem_of_lookup found)
    have pairs := RecentPairs.pairs_get_of_some found
    have moved : l.pairs.Perm (use key value l.pairs) := by
      simpa only [replace_eq_self l.distinct found] using
        replace_perm_use value l.distinct held
    refine ⟨rfl, ?_⟩
    show Mirrors (c.touch key) _
    rw [touch_eq value h.recency l.distinct held]
    refine ⟨h.capacity_eq, ?_, by rw [pairs]⟩
    rw [pairs]
    exact h.entries.trans moved

/-- A held key is written in place and moved to the end of the queue. -/
theorem rewrite (h : Mirrors c l) {key : κ} (value : ν) (held : key ∈ l.pairs.map Prod.fst) :
    Mirrors (touch { c with entries := replace key value c.entries } key)
      (l.insert key value) := by
  have fits := Nat.le_trans (length_use_le_of_mem value held) l.bounded
  have pairs := RecentPairs.pairs_insert_of_fits fits
  have touched := touch_eq (c := { c with entries := replace key value c.entries })
    value h.recency l.distinct held
  rw [touched]
  refine ⟨h.capacity_eq, ?_, by rw [pairs]⟩
  rw [pairs]
  exact (h.entries.map _).trans (replace_perm_use value l.distinct held)

/-- Without room there is nothing before and nothing after. -/
theorem insert_of_no_room (h : Mirrors c l) (key : κ) (value : ν) (none : capacity = 0) :
    Mirrors (c.insert key value) (l.insert key value) := by
  have nothing : l.pairs = [] := List.eq_nil_of_length_eq_zero (by have := l.bounded; omega)
  have pairs : (l.insert key value).pairs = [] := by
    rw [RecentPairs.pairs_insert_of_full (by simp [use, none]), nothing]
    rfl
  rw [BoundedCache.insert, if_pos (h.capacity_eq.trans none)]
  refine ⟨h.capacity_eq, ?_, ?_⟩
  · rw [pairs, ← nothing]
    exact h.entries
  · rw [pairs, ← nothing]
    exact h.recency

/-- A new key goes to the end, and the front of the queue goes when there is no room. -/
theorem add (h : Mirrors c l) {key : κ} (value : ν) (room : capacity ≠ 0)
    (fresh : key ∉ l.pairs.map Prod.fst) : Mirrors (c.add key value) (l.insert key value) := by
  have used : use key value l.pairs = l.pairs ++ [(key, value)] := use_of_not_mem value fresh
  have size : c.size + 1 = (use key value l.pairs).length := by
    rw [used, h.size_eq, List.length_append, List.length_singleton]
  have grown : (c.entries ++ [(key, value)]).Perm (use key value l.pairs) := by
    rw [used]
    exact h.entries.append_right _
  by_cases fits : (use key value l.pairs).length ≤ capacity
  · rw [add_of_room (by rw [size, h.capacity_eq]; exact fits)]
    have pairs := RecentPairs.pairs_insert_of_fits fits
    refine ⟨h.capacity_eq, ?_, ?_⟩
    · rw [pairs]
      exact grown
    · rw [pairs, used, h.recency, List.map_append]
      rfl
  · cases listed : l.pairs with
    | nil =>
      rw [used, listed] at fits
      exact absurd (Nat.pos_of_ne_zero room) fits
    | cons oldest rest =>
      rw [used, listed, List.cons_append] at grown
      have pairs : (l.insert key value).pairs = rest ++ [(key, value)] := by
        rw [RecentPairs.pairs_insert_of_full fits, used, listed]
        rfl
      have kept : ((oldest :: (rest ++ [(key, value)])).filter fun e => e.1 != oldest.1) =
          rest ++ [(key, value)] := by
        apply filter_ne_head
        rw [← List.cons_append, ← listed, ← used]
        exact nodup_use key value l.distinct
      have recency : c.recency = oldest.1 :: rest.map Prod.fst := by rw [h.recency, listed]; rfl
      rw [add_of_full (by rw [size, h.capacity_eq]; omega) recency]
      refine ⟨h.capacity_eq, ?_, ?_⟩
      · rw [pairs, ← kept]
        exact grown.filter _
      · rw [pairs, List.map_append]
        rfl

theorem insert (h : Mirrors c l) (key : κ) (value : ν) :
    Mirrors (c.insert key value) (l.insert key value) := by
  by_cases none : capacity = 0
  · exact h.insert_of_no_room key value none
  have room : c.capacity ≠ 0 := by rwa [h.capacity_eq]
  rw [BoundedCache.insert, if_neg room]
  by_cases held : key ∈ l.pairs.map Prod.fst
  · rw [if_pos ((h.contains_iff key).2 held)]
    exact h.rewrite value held
  · rw [if_neg (mt (h.contains_iff key).1 held)]
    exact h.add value none held

/-- One call is answered alike, and what is behind it stands for the same list. -/
theorem answer (h : Mirrors c l) (call : Call κ ν) :
    (c.answer call).1 = (l.answer call).1 ∧ Mirrors (c.answer call).2 (l.answer call).2 := by
  cases call with
  | get key =>
    obtain ⟨same, next⟩ := h.get key
    exact ⟨congrArg Answer.value (same.trans (l.fst_get key).symm), next⟩
  | insert key value => exact ⟨rfl, h.insert key value⟩
  | contains key =>
    refine ⟨congrArg Answer.held ?_, h⟩
    rw [contains, h.lookup_eq]
  | clear => exact ⟨rfl, h.capacity_eq, List.Perm.refl _, rfl⟩

theorem answers_eq (h : Mirrors c l) (calls : List (Call κ ν)) :
    c.answers calls = l.answers calls := by
  induction calls generalizing c l with
  | nil => rfl
  | cons call calls ih =>
    obtain ⟨same, next⟩ := h.answer call
    rw [answers, RecentPairs.answers, same, next.size_eq, ih next]

theorem exists_after (h : Mirrors c l) (calls : List (Call κ ν)) :
    ∃ last : RecentPairs κ ν capacity, Mirrors (c.after calls) last := by
  induction calls generalizing c l with
  | nil => exact ⟨l, h⟩
  | cons call calls ih => exact ih (h.answer call).2

end Mirrors

/-- A cache answers as the list of the pairs used last does, with the same number of pairs
behind every call. It never holds more than its capacity, and its queue holds every key of
the cache once and no other. -/
theorem answers_eq_recentPairs (capacity : Nat) (calls : List (Call κ ν)) :
    let new : BoundedCache κ ν := { capacity }
    new.answers calls = (RecentPairs.empty capacity).answers calls ∧
      (new.after calls).size ≤ capacity ∧
      ∀ key, (new.after calls).recency.count key =
        if (new.after calls).contains key then 1 else 0 := by
  intro new
  have start : Mirrors new (RecentPairs.empty capacity) := Mirrors.start capacity
  obtain ⟨last, mirrors⟩ := start.exists_after calls
  exact ⟨start.answers_eq calls, mirrors.size_le, mirrors.count_recency⟩

end BoundedCache

end LogQuery
