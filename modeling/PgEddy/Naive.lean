import PgEddy.Comparison
import PgEddy.Lib.Gregorian

/-!
# Dates and times of the calendar library

The functions of the calendar library on dates and times, and what its documentation says of them: a date is a date of the
proleptic Gregorian calendar within a range of years, and a time of day may be a leap second.
-/

namespace PgEddy

open Gregorian

/-- The functions on dates and times that the program calls. -/
structure NaiveLib (ch : Chrono) extends Calendar ch where
  year : ch.Date → Int
  month : ch.Date → Nat
  day : ch.Date → Nat
  ordinal : ch.Date → Nat
  fromYmdOpt : Int → Nat → Nat → Option ch.Date
  /-- `weekday().num_days_from_monday()`. -/
  weekday : ch.Date → Nat
  isoYear : ch.Date → Int
  isoWeek : ch.Date → Nat
  /-- `from_isoywd_opt` for the Monday of a week. -/
  fromIsoMondayOpt : Int → Nat → Option ch.Date
  /-- `checked_add_signed` of a count of days. -/
  addDays : ch.Date → Int → Option ch.Date
  /-- `and_utc().timestamp()` of a date and a time. -/
  timestamp : ch.Date → ch.Time → Int
  /-- `DateTime::from_timestamp`. -/
  fromTimestamp : Int → Nat → Option (ch.Date × ch.Time)
  /-- The format `%Y-%m-%d`. -/
  formatDate : ch.Date → List Char
  /-- The format `%H:%M`. -/
  formatHourMinute : ch.Time → List Char
  /-- The format `%H:%M:%S`. -/
  formatTime : ch.Time → List Char

/-! ## What the documentation says -/

/-- `NaiveDate::MIN`. -/
def minYear : Int := -262143

/-- `NaiveDate::MAX`. -/
def maxYear : Int := 262142

/-- The number of the first of January 1970. -/
def epochDay : Int := 719163

/-- The nanoseconds that a second may have: a leap second goes on for another second. -/
def NanosFit (second nanos : Nat) : Prop := nanos < 1000000000 ∨ second = 59 ∧ nanos < 2000000000

instance (second nanos : Nat) : Decidable (NanosFit second nanos) :=
  inferInstanceAs (Decidable (nanos < 1000000000 ∨ second = 59 ∧ nanos < 2000000000))

/-- The year as it is printed: with a sign if it has not four digits. -/
def yearText (y : Int) : List Char :=
  if 0 ≤ y ∧ y ≤ 9999 then Text.padNumber 4 y.toNat
  else (if y < 0 then '-' else '+') :: Text.padNumber 4 y.natAbs

namespace NaiveLib

variable {ch : Chrono} (N : NaiveLib ch)

/-- `num_seconds_from_midnight`. -/
def secondsOfDay (t : ch.Time) : Nat := N.hour t * 3600 + N.minute t * 60 + N.second t

/-- What the documentation says of dates. -/
structure LawfulDates : Prop where
  minYear_le : ∀ d, minYear ≤ N.year d
  le_maxYear : ∀ d, N.year d ≤ maxYear
  one_le_month : ∀ d, 1 ≤ N.month d
  month_le : ∀ d, N.month d ≤ 12
  one_le_day : ∀ d, 1 ≤ N.day d
  day_le : ∀ d, N.day d ≤ daysInMonth (N.year d) (N.month d)
  numDaysFromCe_eq : ∀ d, N.numDaysFromCe d = daysBeforeYear (N.year d) + daysBeforeMonth (N.year d) (N.month d) + N.day d
  fromYmdOpt_eq_some : ∀ {y m n d}, N.fromYmdOpt y m n = some d ↔ N.year d = y ∧ N.month d = m ∧ N.day d = n
  fromYmdOpt_isSome : ∀ {y m n}, minYear ≤ y → y ≤ maxYear → 1 ≤ m → m ≤ 12 → 1 ≤ n → n ≤ daysInMonth y m →
    (N.fromYmdOpt y m n).isSome
  weekday_eq : ∀ d, (N.weekday d : Int) = (N.numDaysFromCe d - 1) % 7
  isoYear_eq : ∀ d, N.isoYear d = weekYearOf (N.numDaysFromCe d)
  isoWeek_eq : ∀ d, firstMonday (N.isoYear d) + 7 * (N.isoWeek d - 1) = mondayOf (N.numDaysFromCe d)
  fromIsoMondayOpt_one : ∀ {y d}, N.fromIsoMondayOpt y 1 = some d ↔ N.numDaysFromCe d = firstMonday y
  addDays_eq_some : ∀ {d n d'}, N.addDays d n = some d' ↔ N.numDaysFromCe d' = N.numDaysFromCe d + n

/-- What the documentation says of times. -/
structure LawfulTimes : Prop where
  hour_lt : ∀ t, N.hour t < 24
  minute_lt : ∀ t, N.minute t < 60
  second_lt : ∀ t, N.second t < 60
  nanos_fit : ∀ t, NanosFit (N.second t) (N.nanosecond t)
  fromHmsNano_eq_some : ∀ {h m s n t}, ch.fromHmsNano h m s n = some t ↔
    N.hour t = h ∧ N.minute t = m ∧ N.second t = s ∧ N.nanosecond t = n
  fromHmsNano_isSome : ∀ {h m s n}, h < 24 → m < 60 → s < 60 → NanosFit s n → (ch.fromHmsNano h m s n).isSome

/-- What the documentation says of the count of seconds since 1970. -/
structure LawfulTimestamps : Prop where
  timestamp_eq : ∀ d t, N.timestamp d t = (N.numDaysFromCe d - epochDay) * 86400 + N.secondsOfDay t
  fromTimestamp_eq_some : ∀ {secs nanos d t}, N.fromTimestamp secs nanos = some (d, t) →
    N.timestamp d t = secs ∧ N.nanosecond t = nanos
  fromTimestamp_isSome : ∀ {secs nanos}, (N.fromTimestamp secs nanos).isSome ↔
    (∃ d, N.numDaysFromCe d = secs / 86400 + epochDay) ∧ NanosFit (secs % 60).toNat nanos

/-- What the documentation says of the formats: a leap second is printed as the sixtieth. -/
structure LawfulFormats : Prop where
  formatDate_eq : ∀ d, N.formatDate d =
    yearText (N.year d) ++ '-' :: Text.padNumber 2 (N.month d) ++ '-' :: Text.padNumber 2 (N.day d)
  formatHourMinute_eq : ∀ t, N.formatHourMinute t = Text.padNumber 2 (N.hour t) ++ ':' :: Text.padNumber 2 (N.minute t)
  formatTime_eq : ∀ t, N.formatTime t = Text.padNumber 2 (N.hour t) ++ ':' :: Text.padNumber 2 (N.minute t) ++
    ':' :: Text.padNumber 2 (N.second t + N.nanosecond t / 1000000000)

variable {N}

namespace LawfulDates

variable (hN : N.LawfulDates)

/-- The date of the Gregorian calendar. -/
def civil (d : ch.Date) : Civil :=
  ⟨N.year d, N.month d, N.day d, hN.one_le_month d, hN.month_le d, hN.one_le_day d, hN.day_le d⟩

theorem numDaysFromCe_civil (d : ch.Date) : N.numDaysFromCe d = (hN.civil d).dayNumber := hN.numDaysFromCe_eq d

theorem eq_of_civil {d d' : ch.Date} (h : hN.civil d = hN.civil d') : d = d' := by
  have hsame : N.fromYmdOpt (N.year d') (N.month d') (N.day d') = some d := by
    refine hN.fromYmdOpt_eq_some.mpr ⟨?_, ?_, ?_⟩
    · exact congrArg Civil.year h
    · exact congrArg Civil.month h
    · exact congrArg Civil.day h
  exact Option.some.inj (hsame.symm.trans (hN.fromYmdOpt_eq_some.mpr ⟨rfl, rfl, rfl⟩))

/-- A date is its number. -/
theorem eq_of_numDaysFromCe (hN : N.LawfulDates) {d d' : ch.Date} (h : N.numDaysFromCe d = N.numDaysFromCe d') : d = d' := by
  rw [hN.numDaysFromCe_civil, hN.numDaysFromCe_civil] at h
  exact hN.eq_of_civil (Civil.dayNumber_injective h)

end LawfulDates

end NaiveLib

/-! ## Moments of local time -/

/-- A day, a second of it, and the nanoseconds of the second: those of a leap second count on. -/
structure Stamp where
  day : Int
  second : Nat
  nanos : Nat
  deriving DecidableEq

instance : LE Stamp where
  le a b := a.day < b.day ∨ a.day = b.day ∧ (a.second < b.second ∨ a.second = b.second ∧ a.nanos ≤ b.nanos)

theorem Stamp.le_iff {a b : Stamp} :
    a ≤ b ↔ a.day < b.day ∨ a.day = b.day ∧ (a.second < b.second ∨ a.second = b.second ∧ a.nanos ≤ b.nanos) := Iff.rfl

namespace NaiveLib

variable {ch : Chrono} (N : NaiveLib ch)

def stampOf (d : ch.Date) (t : ch.Time) : Stamp := ⟨N.numDaysFromCe d, N.secondsOfDay t, N.nanosecond t⟩

/-- The moment of a date and a time, or of the midnight of a date. -/
def stamp (tv : TemporalValue ch) : Option Stamp :=
  tv.date.map fun d => tv.time.elim ⟨N.numDaysFromCe d, 0, 0⟩ (N.stampOf d)

variable {N}

/-- A time is its second and its nanoseconds. -/
theorem LawfulTimes.eq_of_secondsOfDay (hN : N.LawfulTimes) {t t' : ch.Time} (hs : N.secondsOfDay t = N.secondsOfDay t')
    (hns : N.nanosecond t = N.nanosecond t') : t = t' := by
  have ht := hN.minute_lt t
  have ht' := hN.minute_lt t'
  have hsec := hN.second_lt t
  have hsec' := hN.second_lt t'
  unfold secondsOfDay at hs
  have hsame : ch.fromHmsNano (N.hour t') (N.minute t') (N.second t') (N.nanosecond t') = some t :=
    hN.fromHmsNano_eq_some.mpr ⟨by omega, by omega, by omega, hns⟩
  exact Option.some.inj (hsame.symm.trans (hN.fromHmsNano_eq_some.mpr ⟨rfl, rfl, rfl, rfl⟩))

/-- The time of an hour, a minute, a second and nanoseconds. -/
theorem LawfulTimes.exists_time (hN : N.LawfulTimes) {h m s n : Nat} (hh : h < 24) (hm : m < 60) (hs : s < 60)
    (hn : NanosFit s n) :
    ∃ t, ch.fromHmsNano h m s n = some t ∧ N.hour t = h ∧ N.minute t = m ∧ N.second t = s ∧ N.nanosecond t = n := by
  obtain ⟨t, ht⟩ := Option.isSome_iff_exists.mp (hN.fromHmsNano_isSome hh hm hs hn)
  exact ⟨t, ht, hN.fromHmsNano_eq_some.mp ht⟩

end NaiveLib

/-! ## The calendar itself -/

/-- A date of the calendar within the range of years. -/
structure GregorianDate where
  civil : Civil
  minYear_le : minYear ≤ civil.year
  le_maxYear : civil.year ≤ maxYear
  deriving DecidableEq

/-- A time of day. -/
structure GregorianTime where
  hour : Nat
  minute : Nat
  second : Nat
  nanos : Nat
  hour_lt : hour < 24
  minute_lt : minute < 60
  second_lt : second < 60
  nanos_fit : NanosFit second nanos
  deriving DecidableEq

namespace Proleptic

def date? (c : Civil) : Option GregorianDate :=
  if h : minYear ≤ c.year ∧ c.year ≤ maxYear then some ⟨c, h.1, h.2⟩ else none

def ymd? (y : Int) (m n : Nat) : Option GregorianDate :=
  if h : 1 ≤ m ∧ m ≤ 12 ∧ 1 ≤ n ∧ n ≤ daysInMonth y m then date? ⟨y, m, n, h.1, h.2.1, h.2.2.1, h.2.2.2⟩ else none

def time? (h m s n : Nat) : Option GregorianTime :=
  if hv : h < 24 ∧ m < 60 ∧ s < 60 ∧ NanosFit s n then some ⟨h, m, s, n, hv.1, hv.2.1, hv.2.2.1, hv.2.2.2⟩ else none

/-- The dates and times of the calendar. No text is read as a date. -/
def chrono : Chrono := ⟨GregorianDate, GregorianTime, fun _ => none, time?⟩

/-- The Monday of a week of a year. -/
def isoMonday? (y : Int) (w : Nat) : Option GregorianDate := date? (Civil.ofDayNumber (firstMonday y + 7 * (w - 1)))

def lib : NaiveLib chrono where
  numDaysFromCe d := d.civil.dayNumber
  hour t := t.hour
  minute t := t.minute
  second t := t.second
  nanosecond t := t.nanos
  year d := d.civil.year
  month d := d.civil.month
  day d := d.civil.day
  ordinal d := daysBeforeMonth d.civil.year d.civil.month + d.civil.day
  fromYmdOpt := ymd?
  weekday d := ((d.civil.dayNumber - 1) % 7).toNat
  isoYear d := weekYearOf d.civil.dayNumber
  isoWeek d := ((mondayOf d.civil.dayNumber - firstMonday (weekYearOf d.civil.dayNumber)) / 7).toNat + 1
  fromIsoMondayOpt := isoMonday?
  addDays d n := date? (Civil.ofDayNumber (d.civil.dayNumber + n))
  timestamp d t := (d.civil.dayNumber - epochDay) * 86400 + (t.hour * 3600 + t.minute * 60 + t.second : Nat)
  fromTimestamp secs nanos :=
    (date? (Civil.ofDayNumber (secs / 86400 + epochDay))).bind fun d =>
      (time? (secs % 86400 / 3600).toNat (secs % 3600 / 60).toNat (secs % 60).toNat nanos).map fun t => (d, t)
  formatDate d := yearText d.civil.year ++ '-' :: Text.padNumber 2 d.civil.month ++ '-' :: Text.padNumber 2 d.civil.day
  formatHourMinute t := Text.padNumber 2 t.hour ++ ':' :: Text.padNumber 2 t.minute
  formatTime t := Text.padNumber 2 t.hour ++ ':' :: Text.padNumber 2 t.minute ++
    ':' :: Text.padNumber 2 (t.second + t.nanos / 1000000000)

theorem date?_eq_some {c : Civil} {d : GregorianDate} : date? c = some d ↔ d.civil = c := by
  unfold date?
  split
  · next h =>
    rw [Option.some.injEq]
    constructor
    · rintro rfl
      rfl
    · rintro rfl
      rfl
  · next h =>
    refine iff_of_false nofun ?_
    rintro rfl
    exact h ⟨d.minYear_le, d.le_maxYear⟩

theorem date?_dayNumber {n : Int} {d : GregorianDate} : date? (Civil.ofDayNumber n) = some d ↔ d.civil.dayNumber = n := by
  rw [date?_eq_some]
  constructor
  · intro h
    rw [h, Civil.dayNumber_ofDayNumber]
  · rintro rfl
    rw [Civil.ofDayNumber_dayNumber]

theorem ymd?_eq_some {y : Int} {m n : Nat} {d : GregorianDate} :
    ymd? y m n = some d ↔ d.civil.year = y ∧ d.civil.month = m ∧ d.civil.day = n := by
  unfold ymd?
  split
  · next h =>
    rw [date?_eq_some]
    constructor
    · intro hd
      rw [hd]
      exact ⟨rfl, rfl, rfl⟩
    · rintro ⟨rfl, rfl, rfl⟩
      rfl
  · next h =>
    refine iff_of_false nofun ?_
    rintro ⟨rfl, rfl, rfl⟩
    exact h ⟨d.civil.one_le_month, d.civil.month_le, d.civil.one_le_day, d.civil.day_le⟩

theorem time?_eq_some {h m s n : Nat} {t : GregorianTime} :
    time? h m s n = some t ↔ t.hour = h ∧ t.minute = m ∧ t.second = s ∧ t.nanos = n := by
  unfold time?
  split
  · next hv =>
    rw [Option.some.injEq]
    constructor
    · rintro rfl
      exact ⟨rfl, rfl, rfl, rfl⟩
    · rintro ⟨rfl, rfl, rfl, rfl⟩
      rfl
  · next hv =>
    refine iff_of_false nofun ?_
    rintro ⟨rfl, rfl, rfl, rfl⟩
    exact hv ⟨t.hour_lt, t.minute_lt, t.second_lt, t.nanos_fit⟩

theorem date?_isSome {c : Civil} (h1 : minYear ≤ c.year) (h2 : c.year ≤ maxYear) : (date? c).isSome := by
  rw [date?, dif_pos ⟨h1, h2⟩]
  rfl

theorem lib_lawfulDates : lib.LawfulDates where
  minYear_le d := d.minYear_le
  le_maxYear d := d.le_maxYear
  one_le_month d := d.civil.one_le_month
  month_le d := d.civil.month_le
  one_le_day d := d.civil.one_le_day
  day_le d := d.civil.day_le
  numDaysFromCe_eq _ := rfl
  fromYmdOpt_eq_some := ymd?_eq_some
  fromYmdOpt_isSome := by
    intro y m n hy hy' h1 h2 h3 h4
    change (ymd? y m n).isSome
    rw [ymd?, dif_pos ⟨h1, h2, h3, h4⟩]
    exact date?_isSome hy hy'
  weekday_eq d := Int.toNat_of_nonneg (Int.emod_nonneg _ (by decide))
  isoYear_eq _ := rfl
  isoWeek_eq d := by
    obtain ⟨hweek, hpos⟩ := firstMonday_add_weeks (daysBeforeYear_lt_iff.mpr (le_refl (weekYearOf d.civil.dayNumber)))
    change firstMonday _ + 7 * (((_ : Nat) + 1 : Nat) - 1 : Int) = _
    rw [Nat.cast_add, Nat.cast_one, add_sub_cancel_right, Int.toNat_of_nonneg hpos]
    exact hweek
  fromIsoMondayOpt_one := by
    intro y d
    have hone : firstMonday y + 7 * ((1 : Nat) - 1 : Int) = firstMonday y := by simp
    change isoMonday? y 1 = some d ↔ d.civil.dayNumber = firstMonday y
    rw [isoMonday?, hone]
    exact date?_dayNumber
  addDays_eq_some := date?_dayNumber

theorem lib_lawfulTimes : lib.LawfulTimes where
  hour_lt t := t.hour_lt
  minute_lt t := t.minute_lt
  second_lt t := t.second_lt
  nanos_fit t := t.nanos_fit
  fromHmsNano_eq_some := time?_eq_some
  fromHmsNano_isSome := by
    intro h m s n h1 h2 h3 h4
    change (time? h m s n).isSome
    rw [time?, dif_pos ⟨h1, h2, h3, h4⟩]
    rfl

theorem lib_lawfulFormats : lib.LawfulFormats := ⟨fun _ => rfl, fun _ => rfl, fun _ => rfl⟩

theorem lib_lawfulTimestamps : lib.LawfulTimestamps where
  timestamp_eq _ _ := rfl
  fromTimestamp_eq_some := by
    intro secs nanos d t h
    obtain ⟨d', hd, h⟩ := Option.bind_eq_some_iff.mp h
    obtain ⟨t', ht, h⟩ := Option.map_eq_some_iff.mp h
    cases h
    have hd := date?_dayNumber.mp hd
    obtain ⟨hh, hm, hs, hn⟩ := time?_eq_some.mp ht
    refine ⟨?_, hn⟩
    change (d.civil.dayNumber - epochDay) * 86400 + (t.hour * 3600 + t.minute * 60 + t.second : Nat) = secs
    rw [hd, hh, hm, hs]
    push_cast
    omega
  fromTimestamp_isSome := by
    intro secs nanos
    change ((date? _).bind fun d => (time? _ _ _ nanos).map fun t => (d, t)).isSome ↔ _
    constructor
    · intro h
      obtain ⟨⟨d, t⟩, h⟩ := Option.isSome_iff_exists.mp h
      obtain ⟨d', hd, h⟩ := Option.bind_eq_some_iff.mp h
      obtain ⟨t', ht, h⟩ := Option.map_eq_some_iff.mp h
      obtain ⟨-, -, hs, hn⟩ := time?_eq_some.mp ht
      exact ⟨⟨d', date?_dayNumber.mp hd⟩, hs ▸ hn ▸ t'.nanos_fit⟩
    · rintro ⟨⟨d, hd⟩, hn⟩
      have hdate := date?_dayNumber.mpr hd
      have htime : (time? (secs % 86400 / 3600).toNat (secs % 3600 / 60).toNat (secs % 60).toNat nanos).isSome := by
        rw [time?, dif_pos ⟨by omega, by omega, by omega, hn⟩]
        rfl
      rw [hdate]
      change ((time? _ _ _ nanos).map _).isSome
      rw [Option.isSome_map]
      exact htime

end Proleptic

end PgEddy
