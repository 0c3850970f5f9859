import LogQuery.Proofs.Text.Order

/-!
# Dates and the instants they denote

A date is a day of the Gregorian calendar, alone or with a time of day, which can have a zone.
Without a zone it is meant in UTC. The instant that a date denotes is a minute of UTC and the time
within this minute, so that a leap second belongs to the minute that it ends. The text of a date
tells the date.
-/

namespace LogQuery.Calendar

open Text (padded digit)

/-! ### Days -/

def isLeap (year : Nat) : Bool := year % 4 == 0 && (year % 100 != 0 || year % 400 == 0)

def daysIn (year : Nat) : Nat → Nat
  | 2 => if isLeap year then 29 else 28
  | 4 | 6 | 9 | 11 => 30
  | _ => 31

/-- The days of a year before a month. -/
def monthStart (year : Nat) : Nat → Nat
  | 0 | 1 => 0
  | month + 2 => monthStart year (month + 1) + daysIn year (month + 1)

/-- The days before a year. -/
def yearStart : Nat → Nat
  | 0 => 0
  | year + 1 => yearStart year + monthStart year 13

/-- A day of the calendar, in a year of four digits. -/
@[ext]
structure Day where
  year : Nat
  month : Nat
  day : Nat
  year_lt : year < 10000
  month_pos : 1 ≤ month
  month_le : month ≤ 12
  day_pos : 1 ≤ day
  day_le : day ≤ daysIn year month
  deriving DecidableEq

theorem daysIn_le (year month : Nat) : daysIn year month ≤ 31 := by
  unfold daysIn
  split
  · split <;> decide
  all_goals decide

theorem monthStart_add_daysIn_le (year : Nat) {m n : Nat} (positive : 1 ≤ m) (h : m < n) :
    monthStart year m + daysIn year m ≤ monthStart year n := by
  obtain ⟨m, rfl⟩ := Nat.exists_eq_add_of_le' positive
  induction n, h using Nat.le_induction with
  | base => exact Nat.le_refl _
  | succ n h ih =>
      obtain ⟨n, rfl⟩ := Nat.exists_eq_add_of_le' (Nat.lt_of_lt_of_le (Nat.succ_pos _) h)
      exact Nat.le_trans ih (Nat.le_add_right _ _)

theorem yearStart_add_le {m n : Nat} (h : m < n) :
    yearStart m + monthStart m 13 ≤ yearStart n := by
  induction n, h using Nat.le_induction with
  | base => exact Nat.le_refl _
  | succ n h ih => exact Nat.le_trans ih (Nat.le_add_right _ _)

namespace Day

variable (x y : Day)

def text : Text := padded 4 x.year ++ '-' :: (padded 2 x.month ++ '-' :: padded 2 x.day)

/-- The days up to this one, which is among them. -/
def number : Nat := yearStart x.year + monthStart x.year x.month + x.day

theorem month_lt : x.month < 10 ^ 2 := Nat.lt_of_le_of_lt x.month_le (by decide)

theorem day_lt : x.day < 10 ^ 2 :=
  Nat.lt_of_le_of_lt (Nat.le_trans x.day_le (daysIn_le x.year x.month)) (by decide)

/-- No day is counted beyond the end of its month. -/
theorem monthStart_add_day_le {n : Nat} (h : x.month < n) :
    monthStart x.year x.month + x.day ≤ monthStart x.year n :=
  Nat.le_trans (Nat.add_le_add_left x.day_le _) (monthStart_add_daysIn_le _ x.month_pos h)

variable {x y}

/-- Days are numbered in the order of their texts, whatever stands behind them. -/
theorem number_lt_or_eq_of_le {t u : Text} (h : (x.text ++ t).le (y.text ++ u) = true) :
    x.number < y.number ∨ x = y ∧ t.le u = true := by
  simp only [text, List.append_assoc, List.cons_append] at h
  rw [Text.le_padded_append_iff x.year_lt y.year_lt, Text.le_cons_self,
    Text.le_padded_append_iff x.month_lt y.month_lt, Text.le_cons_self,
    Text.le_padded_append_iff x.day_lt y.day_lt] at h
  rcases h with years | ⟨sameYear, months | ⟨sameMonth, days | ⟨sameDay, rest⟩⟩⟩
  · left
    have := yearStart_add_le years
    have : monthStart x.year x.month + x.day ≤ monthStart x.year 13 :=
      x.monthStart_add_day_le (Nat.lt_succ_of_le x.month_le)
    have := y.day_pos
    unfold number
    omega
  · left
    have := x.monthStart_add_day_le months
    have := y.day_pos
    unfold number
    rw [← sameYear]
    omega
  · left
    unfold number
    rw [← sameYear, ← sameMonth]
    omega
  · exact .inr ⟨Day.ext sameYear sameMonth sameDay, rest⟩

theorem text_append_inj {t u : Text} (h : x.text ++ t = y.text ++ u) : x = y ∧ t = u := by
  simp only [text, List.append_assoc, List.cons_append] at h
  obtain ⟨year, rest⟩ := Text.padded_append_inj x.year_lt y.year_lt h
  obtain ⟨month, rest⟩ := Text.padded_append_inj x.month_lt y.month_lt (List.cons.inj rest).2
  obtain ⟨day, rest⟩ := Text.padded_append_inj x.day_lt y.day_lt (List.cons.inj rest).2
  exact ⟨Day.ext year month day, rest⟩

end Day

/-! ### Times of day -/

/-- What stands behind a time of day. -/
inductive Zone
  | absent
  | utc
  | offset (behind colon : Bool) (hours : Fin 24) (minutes : Fin 60)
  deriving DecidableEq

namespace Zone

def text : Zone → Text
  | absent => []
  | utc => ['Z']
  | offset behind colon hours minutes =>
    (if behind then '-' else '+') ::
      (padded 2 hours.val ++ ((if colon then [':'] else []) ++ padded 2 minutes.val))

/-- The minutes by which clocks in the zone are ahead of UTC. -/
def minutes : Zone → Int
  | absent | utc => 0
  | offset behind _ hours minutes =>
    let n : Int := 60 * hours.val + minutes.val
    if behind then -n else n

/-- A zone other than `Z` starts with a sign, which is below what a time can go on with. -/
theorem eq_utc_of_le {z : Zone} {c : Char} {t : Text} (hc : '-' < c)
    (h : Text.le (c :: t) z.text = true) : z = .utc := by
  cases z with
  | absent => contradiction
  | utc => rfl
  | offset behind colon hours minutes =>
      have sign : (if behind then '-' else '+') < c := by
        cases behind
        · exact lt_trans (by decide) hc
        · exact hc
      rw [text, Text.le_cons_iff] at h
      rcases h with below | ⟨same, -⟩
      · exact absurd (lt_trans below sign) (lt_irrefl c)
      · rw [← same] at sign
        exact absurd sign (lt_irrefl c)

/-- Where a time goes on, no zone starts. -/
theorem text_ne_cons (z : Zone) {c : Char} (hc : '-' < c) (letter : c ≠ 'Z') (t : Text) :
    z.text ≠ c :: t := by
  intro same
  have utc : z = .utc := by
    apply eq_utc_of_le (t := t) hc
    rw [same]
    exact Text.le_refl _
  rw [utc] at same
  exact letter (List.cons.inj same).1.symm

theorem text_injective : Function.Injective text := by
  intro z w same
  have wide (n : Fin 24) : n.val < 10 ^ 2 := Nat.lt_of_lt_of_le n.isLt (by decide)
  have wide' (n : Fin 60) : n.val < 10 ^ 2 := Nat.lt_of_lt_of_le n.isLt (by decide)
  cases z with
  | absent =>
      cases w with
      | absent => rfl
      | utc => contradiction
      | offset => contradiction
  | utc =>
      cases w with
      | absent => contradiction
      | utc => rfl
      | offset behind _ _ _ => cases behind <;> simp [text] at same
  | offset behind colon hours minutes =>
      cases w with
      | absent => contradiction
      | utc => cases behind <;> simp [text] at same
      | offset behind' colon' hours' minutes' =>
          obtain ⟨sign, rest⟩ := List.cons.inj same
          obtain rfl : behind = behind' := by
            revert sign
            cases behind <;> cases behind' <;> decide
          obtain ⟨sameHours, rest⟩ := Text.padded_append_inj (wide hours) (wide hours') rest
          obtain rfl : hours = hours' := Fin.ext sameHours
          obtain rfl : colon = colon' := by
            have lengths := congrArg List.length rest
            revert lengths
            cases colon <;> cases colon' <;> simp
          have last : padded 2 minutes.val ++ [] = padded 2 minutes'.val ++ [] := by
            simpa using rest
          obtain ⟨sameMinutes, -⟩ := Text.padded_append_inj (wide' minutes) (wide' minutes') last
          rw [Fin.ext sameMinutes]

end Zone

/-! ### Seconds -/

/-- The digits behind a point, as a part of one. -/
def fractionValue : List (Fin 10) → ℚ
  | [] => 0
  | d :: ds => (d.val + fractionValue ds) / 10

theorem fractionValue_mem (ds : List (Fin 10)) : 0 ≤ fractionValue ds ∧ fractionValue ds < 1 := by
  induction ds with
  | nil => simp [fractionValue]
  | cons d ds ih =>
      have low : (0 : ℚ) ≤ d.val := by positivity
      have high : (d.val : ℚ) ≤ 9 := by exact_mod_cast Nat.le_of_lt_succ d.isLt
      constructor
      · rw [fractionValue]
        linarith [ih.1]
      · rw [fractionValue]
        linarith [ih.2]

def digitsText (ds : List (Fin 10)) : Text := ds.map fun d => digit d.val

/-- Digits behind a point are ordered as their texts are, unless a `Z` cuts them off. -/
theorem fractionValue_le_of_le {ds es : List (Fin 10)} {z w : Zone}
    (h : (digitsText ds ++ z.text).le (digitsText es ++ w.text) = true) :
    fractionValue ds ≤ fractionValue es ∨ w = .utc ∧ digitsText es <+: digitsText ds := by
  induction ds generalizing es with
  | nil => exact .inl (fractionValue_mem es).1
  | cons d ds ih =>
      cases es with
      | nil => exact .inr ⟨Zone.eq_utc_of_le (Text.digit_of_forall (by decide) _) h, List.nil_prefix⟩
      | cons e es =>
          rcases Text.le_cons_iff.mp h with below | ⟨same, rest⟩
          · left
            have below : d.val < e.val := (Text.digit_lt_digit_iff d.isLt e.isLt).mp below
            have below : (d.val : ℚ) + 1 ≤ e.val := by exact_mod_cast below
            rw [fractionValue, fractionValue]
            linarith [(fractionValue_mem ds).2, (fractionValue_mem es).1]
          · obtain rfl : d = e := Fin.ext ((Text.digit_inj d.isLt e.isLt).mp same)
            rcases ih rest with values | ⟨utc, cut⟩
            · left
              rw [fractionValue, fractionValue]
              linarith
            · exact .inr ⟨utc, List.cons_prefix_cons.mpr ⟨rfl, cut⟩⟩

theorem digitsText_append_inj {ds es : List (Fin 10)} {z w : Zone}
    (h : digitsText ds ++ z.text = digitsText es ++ w.text) : ds = es ∧ z = w := by
  have notZone (v : Zone) (d : Fin 10) (t : Text) : v.text ≠ digit d.val :: t :=
    v.text_ne_cons (Text.digit_of_forall (by decide) _)
      (Text.digit_of_forall (P := fun c => c ≠ 'Z') (by decide) _) t
  induction ds generalizing es with
  | nil =>
      cases es with
      | nil => exact ⟨rfl, Zone.text_injective h⟩
      | cons e es => exact absurd h (notZone z e _)
  | cons d ds ih =>
      cases es with
      | nil => exact absurd h.symm (notZone w d _)
      | cons e es =>
          obtain ⟨first, rest⟩ := List.cons.inj h
          obtain ⟨rfl, zones⟩ := ih rest
          rw [Fin.ext ((Text.digit_inj d.isLt e.isLt).mp first)]
          exact ⟨rfl, zones⟩

def fractionText : List (Fin 10) → Text
  | [] => []
  | d :: ds => '.' :: digitsText (d :: ds)

theorem fractionValue_le_of_text_le {ds es : List (Fin 10)} {z w : Zone}
    (h : (fractionText ds ++ z.text).le (fractionText es ++ w.text) = true) :
    fractionValue ds ≤ fractionValue es ∨ w = .utc ∧ fractionText es <+: fractionText ds := by
  cases ds with
  | nil => exact .inl (fractionValue_mem es).1
  | cons d ds =>
      cases es with
      | nil => exact .inr ⟨Zone.eq_utc_of_le (by decide) h, List.nil_prefix⟩
      | cons e es =>
          simp only [fractionText, List.cons_append, Text.le_cons_self] at h
          rcases fractionValue_le_of_le h with values | ⟨utc, cut⟩
          · exact .inl values
          · exact .inr ⟨utc, List.cons_prefix_cons.mpr ⟨rfl, cut⟩⟩

theorem fractionText_append_inj {ds es : List (Fin 10)} {z w : Zone}
    (h : fractionText ds ++ z.text = fractionText es ++ w.text) : ds = es ∧ z = w := by
  cases ds with
  | nil =>
      cases es with
      | nil => exact ⟨rfl, Zone.text_injective h⟩
      | cons e es => exact absurd h (z.text_ne_cons (by decide) (by decide) _)
  | cons d ds =>
      cases es with
      | nil => exact absurd h.symm (w.text_ne_cons (by decide) (by decide) _)
      | cons e es => exact digitsText_append_inj (List.cons.inj h).2

/-- The second of a minute, a leap second included. -/
structure Second where
  whole : Fin 61
  fraction : List (Fin 10)
  deriving DecidableEq

theorem Second.whole_lt (s : Second) : s.whole.val < 10 ^ 2 :=
  Nat.lt_of_lt_of_le s.whole.isLt (by decide)

def secondText : Option Second → Text
  | none => []
  | some s => ':' :: (padded 2 s.whole.val ++ fractionText s.fraction)

def secondValue : Option Second → ℚ
  | none => 0
  | some s => s.whole.val + fractionValue s.fraction

theorem secondText_append_inj {a b : Option Second} {z w : Zone}
    (h : secondText a ++ z.text = secondText b ++ w.text) : a = b ∧ z = w := by
  cases a with
  | none =>
      cases b with
      | none => exact ⟨rfl, Zone.text_injective h⟩
      | some t => exact absurd h (z.text_ne_cons (by decide) (by decide) _)
  | some s =>
      cases b with
      | none => exact absurd h.symm (w.text_ne_cons (by decide) (by decide) _)
      | some t =>
          simp only [secondText, List.cons_append, List.append_assoc] at h
          obtain ⟨whole, rest⟩ :=
            Text.padded_append_inj s.whole_lt t.whole_lt (List.cons.inj h).2
          obtain ⟨fraction, zones⟩ := fractionText_append_inj rest
          obtain ⟨_, _⟩ := s
          obtain ⟨_, _⟩ := t
          obtain rfl := Fin.ext whole
          obtain rfl := fraction
          exact ⟨rfl, zones⟩

/-- Seconds are ordered as their texts are, unless a `Z` cuts them off. -/
theorem secondValue_le_of_le {a b : Option Second} {z w : Zone}
    (h : (secondText a ++ z.text).le (secondText b ++ w.text) = true) :
    secondValue a ≤ secondValue b ∨ w = .utc ∧ secondText b <+: secondText a := by
  cases a with
  | none =>
      left
      cases b with
      | none => exact le_refl _
      | some t =>
          have := (fractionValue_mem t.fraction).1
          rw [secondValue, secondValue]
          positivity
  | some s =>
      cases b with
      | none => exact .inr ⟨Zone.eq_utc_of_le (by decide) h, List.nil_prefix⟩
      | some t =>
          simp only [secondText, List.cons_append, List.append_assoc] at h
          rw [Text.le_cons_self, Text.le_padded_append_iff s.whole_lt t.whole_lt] at h
          rcases h with below | ⟨same, rest⟩
          · left
            have below : (s.whole.val : ℚ) + 1 ≤ t.whole.val := by exact_mod_cast below
            rw [secondValue, secondValue]
            linarith [(fractionValue_mem s.fraction).2, (fractionValue_mem t.fraction).1]
          · rcases fractionValue_le_of_text_le rest with values | ⟨utc, cut⟩
            · left
              rw [secondValue, secondValue, same]
              linarith
            · right
              refine ⟨utc, ?_⟩
              rw [secondText, secondText, same]
              exact List.cons_prefix_cons.mpr ⟨rfl, (List.prefix_append_right_inj _).mpr cut⟩

/-- A time of day behind a day, from which a letter or a space sets it apart. -/
structure Clock where
  spaced : Bool
  hour : Fin 24
  minute : Fin 60
  second : Option Second
  zone : Zone
  deriving DecidableEq

namespace Clock

def separator (c : Clock) : Char := if c.spaced then ' ' else 'T'

/-- The text up to the zone. -/
def stem (c : Clock) : Text :=
  c.separator :: (padded 2 c.hour.val ++ ':' :: (padded 2 c.minute.val ++ secondText c.second))

/-- The minutes since midnight. -/
def minutes (c : Clock) : Nat := 60 * c.hour.val + c.minute.val

variable {c d : Clock}

theorem minutes_lt (c : Clock) : c.minutes < 1440 := by
  unfold minutes
  omega

theorem hour_lt (c : Clock) : c.hour.val < 10 ^ 2 := Nat.lt_of_lt_of_le c.hour.isLt (by decide)

theorem minute_lt (c : Clock) : c.minute.val < 10 ^ 2 :=
  Nat.lt_of_lt_of_le c.minute.isLt (by decide)

/-- Times of day are ordered as their texts are, if the same sets them apart from the day and
unless a `Z` cuts off the seconds. -/
theorem minutes_lt_or_of_le (separators : c.separator = d.separator)
    (h : (c.stem ++ c.zone.text).le (d.stem ++ d.zone.text) = true) :
    c.minutes < d.minutes ∨ c.minutes = d.minutes ∧
      (secondValue c.second ≤ secondValue d.second ∨ d.zone = .utc ∧ d.stem <+: c.stem) := by
  simp only [stem, separators, List.cons_append, List.append_assoc] at h
  rw [Text.le_cons_self, Text.le_padded_append_iff c.hour_lt d.hour_lt, Text.le_cons_self,
    Text.le_padded_append_iff c.minute_lt d.minute_lt] at h
  unfold minutes
  rcases h with hours | ⟨sameHour, minutes | ⟨sameMinute, rest⟩⟩
  · left
    omega
  · left
    omega
  · right
    refine ⟨by omega, ?_⟩
    rcases secondValue_le_of_le rest with values | ⟨utc, cut⟩
    · exact .inl values
    · right
      refine ⟨utc, ?_⟩
      rw [stem, stem, separators, sameHour, sameMinute]
      refine List.cons_prefix_cons.mpr ⟨rfl, (List.prefix_append_right_inj _).mpr ?_⟩
      exact List.cons_prefix_cons.mpr ⟨rfl, (List.prefix_append_right_inj _).mpr cut⟩

theorem stem_append_inj (h : c.stem ++ c.zone.text = d.stem ++ d.zone.text) : c = d := by
  simp only [stem, List.cons_append, List.append_assoc] at h
  obtain ⟨first, rest⟩ := List.cons.inj h
  obtain ⟨hours, rest⟩ := Text.padded_append_inj c.hour_lt d.hour_lt rest
  obtain ⟨minutes, rest⟩ := Text.padded_append_inj c.minute_lt d.minute_lt (List.cons.inj rest).2
  obtain ⟨seconds, zones⟩ := secondText_append_inj rest
  obtain ⟨spaced, _, _, _, _⟩ := c
  obtain ⟨spaced', _, _, _, _⟩ := d
  obtain rfl : spaced = spaced' := by
    revert first
    cases spaced <;> cases spaced' <;> simp [separator]
  obtain rfl := Fin.ext hours
  obtain rfl := Fin.ext minutes
  obtain rfl := seconds
  obtain rfl := zones
  rfl

end Clock

/-! ### Dates -/

/-- A day, alone or with a time. -/
structure Date where
  day : Day
  clock : Option Clock
  deriving DecidableEq

namespace Date

variable (x y : Date)

def zone : Zone := (x.clock.map Clock.zone).getD .absent

/-- The text up to the zone. -/
def stem : Text := x.day.text ++ (x.clock.map Clock.stem).getD []

def text : Text := x.stem ++ x.zone.text

/-- The minutes since midnight. -/
def minutes : Nat := (x.clock.map Clock.minutes).getD 0

/-- The seconds that have passed in the minute. -/
def seconds : ℚ := secondValue (x.clock.bind Clock.second)

/-- The instant that a date denotes: a minute of UTC and a time within it. -/
def instant : ℤ ×ₗ ℚ := toLex (1440 * x.day.number + x.minutes - x.zone.minutes, x.seconds)

variable {x y}

theorem minutes_lt : x.minutes < 1440 := by
  unfold minutes
  cases x.clock with
  | none => decide
  | some c => exact c.minutes_lt

theorem seconds_nonneg : 0 ≤ x.seconds := by
  unfold seconds
  cases x.clock.bind Clock.second with
  | none => exact le_refl _
  | some s =>
      have := (fractionValue_mem s.fraction).1
      rw [secondValue]
      positivity

/-- The same sets the time apart from the day, if both dates have a time. -/
def SameSeparator (x y : Date) : Prop :=
  ∀ c ∈ x.clock, ∀ d ∈ y.clock, c.separator = d.separator

/-- Dates of one zone are ordered as their texts are, if the same sets the times apart and unless
a `Z` cuts off what another date goes on with. -/
theorem instant_le_of_le (zones : x.zone.minutes = y.zone.minutes)
    (separators : SameSeparator x y) (h : x.text.le y.text = true) :
    x.instant ≤ y.instant ∨ y.zone = .utc ∧ y.stem <+: x.stem := by
  have order (below : 1440 * x.day.number + x.minutes < 1440 * y.day.number + y.minutes) :
      x.instant ≤ y.instant := by
    rw [instant, instant, Prod.Lex.toLex_le_toLex]
    left
    dsimp only
    omega
  have order' (same : 1440 * x.day.number + x.minutes = 1440 * y.day.number + y.minutes)
      (seconds : x.seconds ≤ y.seconds) : x.instant ≤ y.instant := by
    rw [instant, instant, Prod.Lex.toLex_le_toLex]
    right
    refine ⟨?_, seconds⟩
    dsimp only
    omega
  have early := minutes_lt (x := x)
  have positive := seconds_nonneg (x := y)
  obtain ⟨day, clock⟩ := x
  obtain ⟨day', clock'⟩ := y
  simp only [text, stem, List.append_assoc] at h
  rcases Day.number_lt_or_eq_of_le h with days | ⟨rfl, rest⟩
  · exact .inl (order (by dsimp only; omega))
  · cases clock with
    | none =>
        left
        have midnight : minutes ⟨day, none⟩ = 0 := rfl
        rcases Nat.eq_zero_or_pos (minutes ⟨day, clock'⟩) with start | later
        · exact order' (by dsimp only; omega) positive
        · exact order (by dsimp only; omega)
    | some c =>
        cases clock' with
        | none => contradiction
        | some d =>
            rcases Clock.minutes_lt_or_of_le (separators c rfl d rfl) rest with
              below | ⟨same, values | ⟨utc, cut⟩⟩
            · exact .inl (order (Nat.add_lt_add_left below _))
            · exact .inl (order' (congrArg _ same) values)
            · exact .inr ⟨utc, (List.prefix_append_right_inj _).mpr cut⟩

/-- The text of a date tells the date. -/
theorem text_injective : Function.Injective text := by
  intro x y same
  obtain ⟨day, clock⟩ := x
  obtain ⟨day', clock'⟩ := y
  simp only [text, stem, List.append_assoc] at same
  obtain ⟨rfl, rest⟩ := Day.text_append_inj same
  cases clock with
  | none =>
      cases clock' with
      | none => rfl
      | some d => contradiction
  | some c =>
      cases clock' with
      | none => contradiction
      | some d => rw [Clock.stem_append_inj rest]

end Date

end LogQuery.Calendar
