import LogQuery.Proofs.Suggest.Calendar
import LogQuery.Proofs.Text.Name
import LogQuery.Suggest.Hits

/-!
# Hits in the order of time

Hits whose values are dates are listed in the order of their texts. That is the order of time
for dates of one format, but a `Z` is above all that a time can go on with, a space is below the
letter that can stand in its place, and dates in different zones are compared as they are
written. A date that is listed before an earlier one differs from it in one of these ways.
-/

namespace LogQuery

open Calendar
open Text (padded digit isDecimalDigit)

namespace HitKind

/-! ### Dates are known as dates -/

theorem isDecimalDigit_digit (n : Nat) : isDecimalDigit (digit n) = true :=
  Text.digit_of_forall (P := fun c => isDecimalDigit c = true) (by decide) n

theorem afterDigits?_padded (width n : Nat) (t : Text) :
    afterDigits? width (padded width n ++ t) = some t := by
  induction width generalizing n with
  | zero => rfl
  | succ width ih =>
      rw [padded, List.cons_append, afterDigits?, if_pos (isDecimalDigit_digit _), ih]

theorem afterDay?_text (x : Day) (t : Text) : afterDay? (x.text ++ t) = some t := by
  simp [afterDay?, Day.text, afterDigits?_padded, afterChar?]

theorem afterPair?_colon (optional : Bool) (m n : Nat) (t : Text) :
    afterPair? optional (padded 2 m ++ ':' :: (padded 2 n ++ t)) = some t := by
  simp [afterPair?, afterDigits?_padded, afterChar?]

/-- The colon between hours and minutes can be left out where it is optional. -/
theorem afterPair?_plain (m n : Nat) : afterPair? true (padded 2 m ++ padded 2 n) = some [] := by
  have noColon : afterChar? ':' (padded 2 n) = none := by
    rw [padded, afterChar?, if_neg]
    exact Text.digit_of_forall (P := fun c => ¬ (':' == c) = true) (by decide) _
  have digits : afterDigits? 2 (padded 2 n) = some [] := by
    simpa using afterDigits?_padded 2 n []
  simp [afterPair?, afterDigits?_padded, noColon, digits]

theorem isZone_text (z : Zone) : isZone z.text = true := by
  cases z with
  | absent => rfl
  | utc => rfl
  | offset behind colon hours minutes =>
      have pair : afterPair? true (padded 2 hours.val ++
          ((if colon then [':'] else []) ++ padded 2 minutes.val)) = some [] := by
        cases colon with
        | true => simpa using afterPair?_colon true hours.val minutes.val []
        | false => exact afterPair?_plain hours.val minutes.val
      cases behind <;> simp [Zone.text, isZone, pair]

theorem dropWhile_digitsText (ds : List (Fin 10)) (z : Zone) :
    (digitsText ds ++ z.text).dropWhile isDecimalDigit = z.text := by
  induction ds with
  | nil =>
      cases z with
      | absent => rfl
      | utc => rfl
      | offset behind colon hours minutes => cases behind <;> rfl
  | cons d ds ih =>
      rw [digitsText, List.map_cons, List.cons_append,
        List.dropWhile_cons_of_pos (isDecimalDigit_digit _)]
      exact ih

theorem afterFraction_text (ds : List (Fin 10)) (z : Zone) :
    afterFraction (fractionText ds ++ z.text) = z.text := by
  cases ds with
  | nil =>
      cases z with
      | absent => rfl
      | utc => rfl
      | offset behind colon hours minutes => cases behind <;> rfl
  | cons d ds =>
      change (if isDecimalDigit (digit d.val) then (digitsText ds ++ z.text).dropWhile isDecimalDigit
        else _) = _
      rw [if_pos (isDecimalDigit_digit _), dropWhile_digitsText]

theorem afterSeconds_text (s : Option Second) (z : Zone) :
    afterSeconds (secondText s ++ z.text) = z.text := by
  cases s with
  | none =>
      cases z with
      | absent => rfl
      | utc => rfl
      | offset behind colon hours minutes => cases behind <;> rfl
  | some s =>
      have rest : (afterChar? ':' (secondText (some s) ++ z.text)).bind (afterDigits? 2) =
          some (fractionText s.fraction ++ z.text) := by
        simp [secondText, afterChar?, afterDigits?_padded]
      rw [afterSeconds, rest]
      exact afterFraction_text s.fraction z

theorem isDate_text (x : Date) : isDate x.text = true := by
  obtain ⟨day, clock⟩ := x
  rw [isDate, Date.text, Date.stem, List.append_assoc, afterDay?_text]
  cases clock with
  | none => rfl
  | some c =>
      have separator : (c.separator == 'T' || c.separator == ' ') = true := by
        rw [Clock.separator]
        split <;> rfl
      have zone : isZone (afterSeconds (secondText c.second ++ c.zone.text)) = true := by
        rw [afterSeconds_text, isZone_text]
      change ((c.separator == 'T' || c.separator == ' ') && (afterPair? false
        (padded 2 c.hour.val ++ ':' :: (padded 2 c.minute.val ++ secondText c.second) ++
          c.zone.text)).any fun rest => isZone (afterSeconds rest)) = true
      rw [List.append_assoc, List.cons_append, List.append_assoc, afterPair?_colon, Option.any_some,
        separator, zone]
      rfl

/-! ### Dates are no numbers -/

theorem isDigit_of_mem_padded {width n : Nat} : ∀ c ∈ padded width n, c.isDigit = true := by
  induction width generalizing n with
  | zero => exact fun c hc => absurd hc List.not_mem_nil
  | succ width ih =>
      intro c hc
      rcases List.mem_cons.mp hc with rfl | hc
      · exact Text.digit_of_forall (P := fun c => c.isDigit = true) (by decide) _
      · exact ih c hc

/-- Digits with a minus behind them are no number. -/
theorem ofText?_minus {ds : Text} (digits : ∀ c ∈ ds, c.isDigit = true) (nonempty : ds ≠ [])
    (t : Text) : Binary64.Reading.ofText? (ds ++ '-' :: t) = none := by
  have rank : Binary64.rankOfDigits? (ds ++ '-' :: t) = none := by
    have whole : (ds ++ '-' :: t).takeWhile Char.isDigit = ds := by
      rw [List.takeWhile_append_of_pos digits]
      exact List.append_nil ds
    simp [Binary64.rankOfDigits?, whole, nonempty, Binary64.exponentOfText?]
  obtain ⟨c, ds, rfl⟩ := List.exists_cons_of_ne_nil nonempty
  have digit : c.isDigit = true := digits c List.mem_cons_self
  have ne {d : Char} (hd : d.isDigit = false) : c ≠ d := by
    rintro rfl
    rw [digit] at hd
    contradiction
  have lower : c.toLower = c := Text.toLower_of_isDigit digit
  have infinite : Text.isOneOf ((c :: ds ++ '-' :: t).map Char.toLower) ["inf", "infinity"] =
      false := by
    have other : c ≠ 'i' := ne (by decide)
    simp [Text.isOneOf, lower, other]
  have undefined : ((c :: ds ++ '-' :: t).map Char.toLower == ("nan" : Text)) = false := by
    have other : c ≠ 'n' := ne (by decide)
    simp [lower, other]
  rw [Binary64.Reading.ofText?, infinite, undefined, rank]
  · rfl
  · intro cs same
    exact ne (by decide) (List.cons.inj same).1
  · intro cs same
    exact ne (by decide) (List.cons.inj same).1

theorem ofText?_day (x : Day) (t : Text) : Binary64.Reading.ofText? (x.text ++ t) = none := by
  rw [Day.text, List.append_assoc]
  apply ofText?_minus isDigit_of_mem_padded
  rw [padded]
  exact List.cons_ne_nil _ _

theorem isBlank_of_isDigit {c : Char} (h : c.isDigit = true) : Text.isBlank c = false :=
  Text.isBlank_of_isNameChar (by simp [Text.isNameChar, Char.isAlphanum, h])

theorem isBlank_of_mem_padded {width n : Nat} : ∀ c ∈ padded width n, Text.isBlank c = false :=
  fun c hc => isBlank_of_isDigit (isDigit_of_mem_padded c hc)

theorem isBlank_of_mem_zone (z : Zone) : ∀ c ∈ z.text, Text.isBlank c = false := by
  have nothing : ∀ c ∈ ([] : Text), Text.isBlank c = false := fun c hc => absurd hc List.not_mem_nil
  have one {d : Char} (hd : Text.isBlank d = false) : ∀ c ∈ [d], Text.isBlank c = false :=
    List.forall_mem_singleton.mpr hd
  cases z with
  | absent => exact nothing
  | utc => exact one rfl
  | offset behind colon hours minutes =>
      refine List.forall_mem_cons.mpr ⟨by cases behind <;> rfl, ?_⟩
      refine List.forall_mem_append.mpr ⟨isBlank_of_mem_padded, ?_⟩
      refine List.forall_mem_append.mpr ⟨?_, isBlank_of_mem_padded⟩
      cases colon with
      | true => exact one rfl
      | false => exact nothing

theorem isBlank_of_mem_second (s : Option Second) : ∀ c ∈ secondText s, Text.isBlank c = false := by
  cases s with
  | none => exact fun c hc => absurd hc List.not_mem_nil
  | some s =>
      refine List.forall_mem_cons.mpr ⟨rfl, ?_⟩
      refine List.forall_mem_append.mpr ⟨isBlank_of_mem_padded, ?_⟩
      cases s.fraction with
      | nil => exact fun c hc => absurd hc List.not_mem_nil
      | cons d ds =>
          refine List.forall_mem_cons.mpr ⟨rfl, fun c hc => ?_⟩
          obtain ⟨e, -, rfl⟩ := List.mem_map.mp hc
          exact Text.digit_of_forall (P := fun c => Text.isBlank c = false) (by decide) _

theorem tight_day (x : Day) : x.text.Tight := by
  apply Text.Tight.of_all
  · rw [Day.text, padded]
    exact List.cons_ne_nil _ _
  · refine List.forall_mem_append.mpr ⟨isBlank_of_mem_padded, ?_⟩
    refine List.forall_mem_cons.mpr ⟨rfl, List.forall_mem_append.mpr ⟨isBlank_of_mem_padded, ?_⟩⟩
    exact List.forall_mem_cons.mpr ⟨rfl, isBlank_of_mem_padded⟩

/-- White space stands in a date only where it sets the time apart. -/
theorem tight_text (x : Date) : x.text.Tight := by
  obtain ⟨day, clock⟩ := x
  cases clock with
  | none => simpa [Date.text, Date.stem, Date.zone, Zone.text] using tight_day day
  | some c =>
      have time : Text.Tight (padded 2 c.hour.val ++
          (':' :: (padded 2 c.minute.val ++ (secondText c.second ++ c.zone.text)))) := by
        apply Text.Tight.of_all
        · rw [padded]
          exact List.cons_ne_nil _ _
        · refine List.forall_mem_append.mpr ⟨isBlank_of_mem_padded, ?_⟩
          refine List.forall_mem_cons.mpr ⟨rfl, ?_⟩
          refine List.forall_mem_append.mpr ⟨isBlank_of_mem_padded, ?_⟩
          exact List.forall_mem_append.mpr ⟨isBlank_of_mem_second c.second, isBlank_of_mem_zone c.zone⟩
      have whole := (tight_day day).around [c.separator] time
      simpa [Date.text, Date.stem, Date.zone, Clock.stem] using whole

theorem ofValue_text (x : Date) : ofValue x.text = .date := by
  have number : Binary64.Reading.ofText? x.text = none := by
    rw [Date.text, Date.stem, List.append_assoc]
    exact ofText?_day x.day _
  rw [ofValue, (tight_text x).trim_eq, number, isDate_text]
  rfl

end HitKind

namespace Hit

/-! ### Sorting -/

/-- Sorting puts the hits in from the first to the last. -/
theorem sortBy_eq_insertionSort (below : Hit → Hit → Bool) (hits : List Hit) :
    sortBy below hits =
      (hits.reverse.insertionSort fun a b => below a b = false).reverse := by
  have insert_eq (h : Hit) (hs : List Hit) :
      insert below h hs = hs.orderedInsert (fun a b => below a b = false) h := by
    induction hs with
    | nil => rfl
    | cons other rest ih =>
        rw [insert, List.orderedInsert, ih]
        cases below h other <;> rfl
  rw [sortBy, List.foldl_eq_foldr_reverse, List.insertionSort]
  simp only [insert_eq]

end Hit

/-- A hit whose value is a date. -/
structure DatedHit where
  date : Date
  count : Nat

namespace DatedHit

def toHit (h : DatedHit) : Hit := ⟨h.date.text, h.count⟩

/-- Dated hits are compared by their texts. -/
theorem isBelow_commonKind (hits : List DatedHit) :
    Hit.isBelow (Hit.commonKind (hits.map toHit)) = Hit.textBelow := by
  cases hits with
  | nil => rfl
  | cons h hs =>
      have kind (other : DatedHit) : HitKind.ofValue other.toHit.value = .date :=
        HitKind.ofValue_text other.date
      have all : ((hs.map toHit).all fun other =>
          HitKind.ofValue other.value == HitKind.ofValue h.toHit.value) = true := by
        simp [kind]
      rw [List.map_cons, Hit.commonKind, if_pos all, kind h]
      rfl

/-- The order in which dated hits are listed, the last first. -/
def IsAbove (a b : DatedHit) : Prop := b.date.text.le a.date.text = true

instance : DecidableRel IsAbove := fun _ _ => inferInstanceAs (Decidable (_ = true))

instance : Std.Total IsAbove := ⟨fun a b => Text.le_total b.date.text a.date.text⟩

instance : IsTrans DatedHit IsAbove := ⟨fun _ _ _ h hu => Text.le_trans hu h⟩

/-- Dated hits in the order of their texts. -/
def listed (hits : List DatedHit) : List DatedHit := (hits.reverse.insertionSort IsAbove).reverse

theorem sort_eq_listed (hits : List DatedHit) :
    Hit.sort (hits.map toHit) = (listed hits).map toHit := by
  have kept : (hits.map toHit).filter (fun h => !h.value.isEmpty) = hits.map toHit := by
    rw [List.filter_eq_self]
    intro h hh
    obtain ⟨dated, -, rfl⟩ := List.mem_map.mp hh
    simpa [toHit] using (HitKind.tight_text dated.date).nonempty
  rw [Hit.sort, kept, isBelow_commonKind, Hit.sortBy_eq_insertionSort, listed, List.map_reverse,
    List.map_insertionSort IsAbove (fun a b => Hit.textBelow a b = false), List.map_reverse]
  intro a _ b _
  simp [IsAbove, Hit.textBelow, toHit]

theorem listed_perm (hits : List DatedHit) : (listed hits).Perm hits :=
  (List.reverse_perm _).trans ((List.perm_insertionSort _ _).trans (List.reverse_perm _))

theorem pairwise_listed (hits : List DatedHit) :
    (listed hits).Pairwise fun a b => a.date.text.le b.date.text = true := by
  rw [listed, List.pairwise_reverse]
  exact List.pairwise_insertionSort IsAbove _

end DatedHit

/-! ### Dates out of order -/

/-- A date that is listed before an earlier one: the zones differ, or what sets the times apart, or
a `Z` cuts off the earlier one where the later one goes on. -/
structure Calendar.Date.Overtakes (x y : Date) : Prop where
  before : x.text.le y.text = true
  later : y.instant < x.instant
  cause : x.zone.minutes ≠ y.zone.minutes ∨ ¬ Date.SameSeparator x y ∨
    y.zone = .utc ∧ y.stem <+: x.stem

/-- Nothing else puts a date before an earlier one. -/
theorem Calendar.Date.Overtakes.of_le {x y : Date} (before : x.text.le y.text = true)
    (later : y.instant < x.instant) : x.Overtakes y where
  before := before
  later := later
  cause := by
    by_cases zones : x.zone.minutes = y.zone.minutes
    · by_cases separators : Date.SameSeparator x y
      · right; right
        rcases Date.instant_le_of_le zones separators before with order | cut
        · exact absurd later (not_lt.mpr order)
        · exact cut
      · exact .inr (.inl separators)
    · exact .inl zones

/-- Sorting hits whose values are dates gives the same hits. They are in the order of time exactly
if none of the dates overtakes another. -/
theorem exists_sort_dates (hits : List DatedHit) :
    ∃ sorted : List DatedHit, Hit.sort (hits.map DatedHit.toHit) = sorted.map DatedHit.toHit ∧
      sorted.Perm hits ∧
      (sorted.Pairwise (fun a b => a.date.instant ≤ b.date.instant) ↔
        ∀ a ∈ hits, ∀ b ∈ hits, ¬ a.date.Overtakes b.date) := by
  refine ⟨DatedHit.listed hits, DatedHit.sort_eq_listed hits, DatedHit.listed_perm hits, ?_⟩
  have texts := DatedHit.pairwise_listed hits
  constructor
  · intro chronological a ha b hb overtakes
    let Ordered (a b : DatedHit) : Prop :=
      a.date.text.le b.date.text = true ∧ a.date.instant ≤ b.date.instant
    have either : ∀ a ∈ DatedHit.listed hits, ∀ b ∈ DatedHit.listed hits,
        Ordered a b ∨ Ordered b a := by
      have ordered := texts.and chronological
      apply List.Pairwise.forall_of_forall_of_flip
      · exact fun h _ => .inl ⟨Text.le_refl _, le_refl _⟩
      · exact ordered.imp fun h => .inl h
      · exact ordered.imp fun h => .inr h
    have mem {h : DatedHit} (hh : h ∈ hits) : h ∈ DatedHit.listed hits :=
      (DatedHit.listed_perm hits).mem_iff.mpr hh
    rcases either a (mem ha) b (mem hb) with ⟨-, order⟩ | ⟨after, -⟩
    · exact absurd overtakes.later (not_lt.mpr order)
    · have same := Date.text_injective (Text.le_antisymm overtakes.before after)
      have later := overtakes.later
      rw [same] at later
      exact lt_irrefl _ later
  · intro inOrder
    refine texts.imp_of_mem fun {a b} ha hb before => ?_
    by_contra later
    have mem {h : DatedHit} (hh : h ∈ DatedHit.listed hits) : h ∈ hits :=
      (DatedHit.listed_perm hits).mem_iff.mp hh
    exact inOrder a (mem ha) b (mem hb) (.of_le before (not_le.mp later))

/-- Half a second later, and listed first. -/
theorem sort_half_second :
    let day : Day := ⟨2024, 1, 1, by decide, by decide, by decide, by decide, by decide⟩
    let whole : Date := ⟨day, some ⟨false, 10, 0, some ⟨0, []⟩, .utc⟩⟩
    let half : Date := ⟨day, some ⟨false, 10, 0, some ⟨0, [5]⟩, .utc⟩⟩
    whole.text = "2024-01-01T10:00:00Z" ∧ half.text = "2024-01-01T10:00:00.5Z" ∧
      Hit.sort [⟨whole.text, 1⟩, ⟨half.text, 2⟩] = [⟨half.text, 2⟩, ⟨whole.text, 1⟩] ∧
      whole.instant < half.instant := by
  intro day whole half
  refine ⟨by decide, by decide, by decide, ?_⟩
  rw [Date.instant, Date.instant, Prod.Lex.toLex_lt_toLex]
  right
  refine ⟨rfl, ?_⟩
  norm_num [Date.seconds, secondValue, fractionValue, whole, half]

end LogQuery
