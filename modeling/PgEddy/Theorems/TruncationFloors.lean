import PgEddy.Truncation

/-!
# Truncation as a floor

A date unit takes a day to the first day of its period, and that is a function on the numbers of days: it keeps their order and
changes nothing when it is used again. The units of many years divide the year towards zero, so in the years before the year zero
they go up instead of down. The units below the second drop a leap second, and then the order of times too.
-/

namespace PgEddy

open Gregorian

variable {ch : Chrono} {N : NaiveLib ch}

/-! ## The property -/

/-- Neither value is without a date, and the first one is not after the second. -/
def NotAfter (N : NaiveLib ch) (a b : TemporalValue ch) : Prop := ∃ s s', N.stamp a = some s ∧ N.stamp b = some s' ∧ s ≤ s'

/-- What is returned is not after the input, and comes back when it is truncated again. -/
def IsFloor (N : NaiveLib ch) (truncate : TemporalValue ch → Exec (TemporalValue ch)) (x : TemporalValue ch) : Prop :=
  ∀ r, truncate x = .ok r → NotAfter N r x ∧ truncate r = .ok r

def KeepsOrder (N : NaiveLib ch) (truncate : TemporalValue ch → Exec (TemporalValue ch)) (x y : TemporalValue ch) : Prop :=
  ∀ r r', truncate x = .ok r → truncate y = .ok r' → NotAfter N r r'

/-! ## The conditions -/

/-- The years of a unit of many years. -/
def yearStep (unit : String) : Option Int :=
  match unit with
  | "millennium" => some 1000
  | "century" => some 100
  | "decade" => some 10
  | _ => none

/-- The unit is not one of many years, or the year is not negative, or the period starts with it. -/
def RoundsDown (N : NaiveLib ch) (unit : String) (x : TemporalValue ch) : Prop :=
  ∀ d step, x.date = some d → yearStep unit = some step → 0 ≤ N.year d ∨ step ∣ N.year d

/-- The nanoseconds of a unit below the second. -/
def fractionStep (unit : String) : Option Nat :=
  match unit with
  | "millisecond" => some 1000000
  | "microsecond" => some 1000
  | _ => none

/-- The second value is in the leap second that follows the second of the first value, and not as far in it. -/
def DropsLeapSecond (N : NaiveLib ch) (unit : String) (x y : TemporalValue ch) : Prop :=
  ∃ u s s', fractionStep unit = some u ∧ N.stamp x = some s ∧ N.stamp y = some s' ∧ s.day = s'.day ∧ s.second = s'.second ∧
    s.nanos < 1000000000 ∧ 1000000000 ≤ s'.nanos ∧ (s'.nanos - 1000000000) / u < s.nanos / u

/-! ## The units as functions on numbers -/

/-- The first day of the month that a month is taken to. -/
def monthwise (f : Int → Int) (n : Int) : Int := monthStart (f (monthAt n)) + 1

/-- The January of the year that a year is divided to. -/
def yearsTowardsZero (step k : Int) : Int := 12 * ((yearOf k).tdiv step * step)

def dayFloor (unit : String) : Option (Int → Int) :=
  match unit with
  | "millennium" => some (monthwise (yearsTowardsZero 1000))
  | "century" => some (monthwise (yearsTowardsZero 100))
  | "decade" => some (monthwise (yearsTowardsZero 10))
  | "year" => some (monthwise fun k => 12 * yearOf k)
  | "weekYear" => some fun n => firstMonday (weekYearOf n)
  | "quarter" => some (monthwise fun k => 3 * (k / 3))
  | "month" => some (monthwise id)
  | "week" => some mondayOf
  | "day" => some id
  | _ => none

def timeFloor (unit : String) : Option (Stamp → Stamp) :=
  match unit with
  | "hour" => some fun s => ⟨s.day, s.second / 3600 * 3600, 0⟩
  | "minute" => some fun s => ⟨s.day, s.second / 60 * 60, 0⟩
  | "second" => some fun s => ⟨s.day, s.second, 0⟩
  | "millisecond" => some fun s => ⟨s.day, s.second, s.nanos / 1000000 * 1000000 % 1000000000⟩
  | "microsecond" => some fun s => ⟨s.day, s.second, s.nanos / 1000 * 1000 % 1000000000⟩
  | _ => none

/-- The function of a unit of local datetimes. -/
def stampFloor (unit : String) : Option (Stamp → Stamp) :=
  match dayFloor unit with
  | some g => some fun s => ⟨g s.day, 0, 0⟩
  | none => timeFloor unit

namespace TruncationAux

/-! ## The functions -/

section Numbers

variable {f : Int → Int} {n : Int}

theorem monthwise_mono (hf : Monotone f) : Monotone (monthwise f) := by
  intro n n' h
  have := monthStart_strictMono.monotone (hf (monthAt_mono h))
  unfold monthwise
  omega

theorem monthwise_idem (hf : ∀ k, f (f k) = f k) (n : Int) : monthwise f (monthwise f n) = monthwise f n := by
  rw [monthwise, monthwise, monthAt_first, hf]

theorem monthwise_le_iff : monthwise f n ≤ n ↔ f (monthAt n) ≤ monthAt n := by
  rw [← monthStart_lt_iff]
  unfold monthwise
  omega

theorem yearsTowardsZero_mono {step : Int} (h : 0 < step) : Monotone (yearsTowardsZero step) := by
  intro k k' hk
  have hyear : yearOf k ≤ yearOf k' := by
    unfold yearOf
    omega
  have hdiv := Int.tdiv_le_tdiv h hyear
  have := mul_le_mul_of_nonneg_right hdiv h.le
  unfold yearsTowardsZero
  omega

theorem yearsTowardsZero_idem {step : Int} (h : 0 < step) (k : Int) :
    yearsTowardsZero step (yearsTowardsZero step k) = yearsTowardsZero step k := by
  have hyear : yearOf (yearsTowardsZero step k) = (yearOf k).tdiv step * step := by
    unfold yearsTowardsZero
    generalize (yearOf k).tdiv step * step = y
    unfold yearOf
    omega
  rw [yearsTowardsZero, hyear, Int.mul_tdiv_cancel _ h.ne', yearsTowardsZero]

/-- Towards zero is down in the years from zero on, and from the years that are multiples of the step. -/
theorem yearsTowardsZero_le_iff {step : Int} (h : 0 < step) (k : Int) :
    yearsTowardsZero step k ≤ k ↔ 0 ≤ yearOf k ∨ step ∣ yearOf k := by
  have hle : yearsTowardsZero step k ≤ k ↔ 0 ≤ (yearOf k).tmod step := by
    have := Int.tdiv_mul_add_tmod (yearOf k) step
    unfold yearsTowardsZero
    unfold yearOf at this ⊢
    omega
  rw [hle]
  constructor
  · intro hmod
    by_contra hnot
    push Not at hnot
    have hneg : 0 ≤ (-yearOf k).tmod step := Int.tmod_nonneg _ (by omega)
    rw [Int.neg_tmod] at hneg
    exact hnot.2 (Int.dvd_of_tmod_eq_zero (by omega))
  · rintro (hpos | hdvd)
    · exact Int.tmod_nonneg _ hpos
    · exact (Int.tmod_eq_zero_of_dvd hdvd).ge

end Numbers

/-- A unit of many years divides the year towards zero, and every other unit takes each day down. -/
theorem dayFloor_cases {unit : String} {g : Int → Int} (h : dayFloor unit = some g) :
    (∃ step, 0 < step ∧ yearStep unit = some step ∧ g = monthwise (yearsTowardsZero step)) ∨
      yearStep unit = none ∧ Monotone g ∧ (∀ n, g (g n) = g n) ∧ ∀ n, g n ≤ n := by
  have hyear : Monotone fun k => 12 * yearOf k := by
    intro k k' hk
    unfold yearOf
    dsimp only
    omega
  have hquarter : Monotone fun k : Int => 3 * (k / 3) := by
    intro k k' hk
    dsimp only
    omega
  unfold dayFloor at h
  split at h
  · exact .inl ⟨1000, by decide, rfl, (Option.some.inj h).symm⟩
  · exact .inl ⟨100, by decide, rfl, (Option.some.inj h).symm⟩
  · exact .inl ⟨10, by decide, rfl, (Option.some.inj h).symm⟩
  · cases h
    refine .inr ⟨rfl, monthwise_mono hyear, monthwise_idem fun k => ?_, fun n => monthwise_le_iff.mpr ?_⟩
    · unfold yearOf
      omega
    · unfold yearOf
      omega
  · cases h
    refine .inr ⟨rfl, fun _ _ h => firstMonday_mono (weekYearOf_mono h), fun n => ?_, firstMonday_le⟩
    dsimp only
    rw [weekYearOf_firstMonday]
  · cases h
    exact .inr ⟨rfl, monthwise_mono hquarter, monthwise_idem fun k => by omega, fun n => monthwise_le_iff.mpr (by omega)⟩
  · cases h
    exact .inr ⟨rfl, monthwise_mono monotone_id, monthwise_idem fun _ => rfl, fun n => monthwise_le_iff.mpr le_rfl⟩
  · cases h
    exact .inr ⟨rfl, mondayOf_mono, mondayOf_mondayOf, mondayOf_le⟩
  · cases h
    exact .inr ⟨rfl, monotone_id, fun _ => rfl, fun _ => le_rfl⟩
  · nomatch h

variable {unit : String} {g : Int → Int}

theorem dayFloor_mono (h : dayFloor unit = some g) : Monotone g := by
  rcases dayFloor_cases h with ⟨step, hpos, -, rfl⟩ | ⟨-, hmono, -, -⟩
  · exact monthwise_mono (yearsTowardsZero_mono hpos)
  · exact hmono

theorem dayFloor_idem (h : dayFloor unit = some g) (n : Int) : g (g n) = g n := by
  rcases dayFloor_cases h with ⟨step, hpos, -, rfl⟩ | ⟨-, -, hidem, -⟩
  · exact monthwise_idem (yearsTowardsZero_idem hpos) n
  · exact hidem n

theorem dayFloor_le_iff (h : dayFloor unit = some g) (n : Int) :
    g n ≤ n ↔ ∀ step, yearStep unit = some step → 0 ≤ yearOfDay n ∨ step ∣ yearOfDay n := by
  rcases dayFloor_cases h with ⟨step, hpos, hstep, rfl⟩ | ⟨hnone, -, -, hle⟩
  · rw [monthwise_le_iff, yearsTowardsZero_le_iff hpos]
    constructor
    · intro hyear step' hstep'
      rw [hstep] at hstep'
      cases hstep'
      exact hyear
    · exact fun hall => hall step hstep
  · rw [hnone]
    exact iff_of_true (hle n) nofun

/-! ## The functions on moments -/

/-- The units below the day are not units of many years. -/
theorem timeFloor_cases {F : Stamp → Stamp} (h : timeFloor unit = some F) :
    yearStep unit = none ∧
      ((fractionStep unit = none ∧ ∃ u, 0 < u ∧ F = fun s => ⟨s.day, s.second / u * u, 0⟩) ∨
        ∃ u, (u = 1000000 ∨ u = 1000) ∧ fractionStep unit = some u ∧
          F = fun s => ⟨s.day, s.second, s.nanos / u * u % 1000000000⟩) := by
  unfold timeFloor at h
  split at h
  · cases h
    exact ⟨rfl, .inl ⟨rfl, 3600, by decide, rfl⟩⟩
  · cases h
    exact ⟨rfl, .inl ⟨rfl, 60, by decide, rfl⟩⟩
  · cases h
    exact ⟨rfl, .inl ⟨rfl, 1, by decide, by simp⟩⟩
  · cases h
    exact ⟨rfl, .inr ⟨1000000, .inl rfl, rfl, rfl⟩⟩
  · cases h
    exact ⟨rfl, .inr ⟨1000, .inr rfl, rfl, rfl⟩⟩
  · nomatch h

theorem stampFloor_cases {F : Stamp → Stamp} (h : stampFloor unit = some F) :
    (∃ g, dayFloor unit = some g ∧ F = fun s => ⟨g s.day, 0, 0⟩) ∨ timeFloor unit = some F := by
  unfold stampFloor at h
  split at h
  · next g hg =>
    cases h
    exact .inl ⟨g, hg, rfl⟩
  · exact .inr h

/-- The units of days are not units below the second. -/
theorem fractionStep_of_dayFloor (h : dayFloor unit = some g) : fractionStep unit = none := by
  unfold dayFloor at h
  split at h
  case h_10 => nomatch h
  all_goals rfl

theorem stampFloor_idem {F : Stamp → Stamp} (h : stampFloor unit = some F) (s : Stamp) : F (F s) = F s := by
  rcases stampFloor_cases h with ⟨g, hg, rfl⟩ | htime
  · dsimp only
    rw [dayFloor_idem hg]
  · rcases timeFloor_cases htime with ⟨-, ⟨-, u, hu, rfl⟩ | ⟨u, rfl | rfl, -, rfl⟩⟩
    · dsimp only
      rw [Nat.mul_div_cancel _ hu]
    · refine congrArg (Stamp.mk _ _) ?_
      dsimp only
      omega
    · refine congrArg (Stamp.mk _ _) ?_
      dsimp only
      omega

theorem stampFloor_le_iff {F : Stamp → Stamp} (h : stampFloor unit = some F) (s : Stamp) :
    F s ≤ s ↔ ∀ step, yearStep unit = some step → 0 ≤ yearOfDay s.day ∨ step ∣ yearOfDay s.day := by
  rcases stampFloor_cases h with ⟨g, hg, rfl⟩ | htime
  · rw [← dayFloor_le_iff hg, Stamp.le_iff]
    dsimp only
    omega
  · rcases timeFloor_cases htime with ⟨hnone, ⟨-, u, -, rfl⟩ | ⟨u, -, -, rfl⟩⟩
    · rw [hnone, Stamp.le_iff]
      have := Nat.div_mul_le_self s.second u
      refine iff_of_true ?_ nofun
      dsimp only
      omega
    · rw [hnone, Stamp.le_iff]
      have := Nat.div_mul_le_self s.nanos u
      have := Nat.mod_le (s.nanos / u * u) 1000000000
      refine iff_of_true ?_ nofun
      dsimp only
      omega

/-- The order is kept but for a leap second that is dropped. -/
theorem stampFloor_mono_iff {F : Stamp → Stamp} (h : stampFloor unit = some F) {s s' : Stamp} (hle : s ≤ s')
    (hns : s.nanos < 2000000000) (hns' : s'.nanos < 2000000000) :
    F s ≤ F s' ↔ ¬∃ u, fractionStep unit = some u ∧ s.day = s'.day ∧ s.second = s'.second ∧ s.nanos < 1000000000 ∧
      1000000000 ≤ s'.nanos ∧ (s'.nanos - 1000000000) / u < s.nanos / u := by
  rw [Stamp.le_iff] at hle
  rcases stampFloor_cases h with ⟨g, hg, rfl⟩ | htime
  · have hmono := dayFloor_mono hg (show s.day ≤ s'.day by omega)
    rw [fractionStep_of_dayFloor hg, Stamp.le_iff]
    refine iff_of_true ?_ nofun
    dsimp only
    omega
  · rcases timeFloor_cases htime with ⟨-, ⟨hnone, u, -, rfl⟩ | ⟨u, hu, hsome, rfl⟩⟩
    · rw [hnone, Stamp.le_iff]
      refine iff_of_true ?_ nofun
      dsimp only
      rcases hle with hday | ⟨hday, hsecond⟩
      · exact .inl hday
      · have := Nat.mul_le_mul_right u (Nat.div_le_div_right (c := u) (show s.second ≤ s'.second by omega))
        omega
    · have hfraction : ∀ p : Nat → Prop, (∃ v, fractionStep unit = some v ∧ p v) ↔ p u := fun p =>
        ⟨fun ⟨v, hv, hp⟩ => Option.some.inj (hsome.symm.trans hv) ▸ hp, fun hp => ⟨u, hsome, hp⟩⟩
      rw [hfraction, Stamp.le_iff]
      dsimp only
      rcases hu with rfl | rfl
      · omega
      · omega

/-! ## Dates -/

variable (hD : N.LawfulDates)

include hD

theorem monthAt_numDays (d : ch.Date) : monthAt (N.numDaysFromCe d) = monthIndex (N.year d) (N.month d) := by
  rw [hD.numDaysFromCe_civil, ← Civil.index_ofDayNumber, Civil.ofDayNumber_dayNumber]
  rfl

theorem yearOfDay_numDays (d : ch.Date) : yearOfDay (N.numDaysFromCe d) = N.year d := by
  rw [yearOfDay, monthAt_numDays hD, yearOf_monthIndex (hD.one_le_month d) (hD.month_le d)]

/-- The first day of a month. -/
theorem fromYmdOpt_first {y : Int} {m : Nat} (h1 : 1 ≤ m) (h2 : m ≤ 12) {b : ch.Date} :
    N.fromYmdOpt y m 1 = some b ↔ N.numDaysFromCe b = monthStart (monthIndex y m) + 1 := by
  have hlen : 1 ≤ monthLength (monthIndex y m) := by
    have := le_monthLength (monthIndex y m)
    omega
  have hnumber : (Civil.ofIndex (monthIndex y m) 1 le_rfl hlen).dayNumber = monthStart (monthIndex y m) + 1 := by
    rw [Civil.dayNumber_eq, Civil.index_ofIndex]
    rfl
  rw [hD.fromYmdOpt_eq_some, hD.numDaysFromCe_civil, ← hnumber]
  constructor
  · rintro ⟨hy, hm, hd⟩
    refine congrArg _ (Civil.ext_index ?_ hd)
    rw [Civil.index_ofIndex, ← hy, ← hm]
    rfl
  · intro h
    have heq := Civil.dayNumber_injective h
    refine ⟨?_, ?_, ?_⟩
    · exact (congrArg Civil.year heq).trans (yearOf_monthIndex h1 h2)
    · exact (congrArg Civil.month heq).trans (monthOf_monthIndex h1 h2)
    · exact congrArg Civil.day heq

/-- The first day of the January of a year that depends on the month of a day only. -/
theorem fromYmdOpt_january {y : Int} {f : Int → Int} {d b : ch.Date}
    (hf : f (monthIndex (N.year d) (N.month d)) = 12 * y) :
    N.fromYmdOpt y 1 1 = some b ↔ N.numDaysFromCe b = monthwise f (N.numDaysFromCe d) := by
  have hindex : monthIndex y 1 = 12 * y := by
    unfold monthIndex
    omega
  rw [fromYmdOpt_first hD le_rfl (by decide), hindex, monthwise, monthAt_numDays hD, hf]

theorem truncateDateBase_eq_some {d b : ch.Date} :
    truncateDateBase N unit d = some b ↔ ∃ g, dayFloor unit = some g ∧ N.numDaysFromCe b = g (N.numDaysFromCe d) := by
  have hyear := yearOf_monthIndex (y := N.year d) (hD.one_le_month d) (hD.month_le d)
  have hmonth := hD.month_le d
  have hone := hD.one_le_month d
  unfold truncateDateBase dayFloor
  split
  · rw [fromYmdOpt_january hD (show yearsTowardsZero 1000 _ = _ by rw [yearsTowardsZero, hyear])]
    simp
  · rw [fromYmdOpt_january hD (show yearsTowardsZero 100 _ = _ by rw [yearsTowardsZero, hyear])]
    simp
  · rw [fromYmdOpt_january hD (show yearsTowardsZero 10 _ = _ by rw [yearsTowardsZero, hyear])]
    simp
  · rw [fromYmdOpt_january hD (f := fun k => 12 * yearOf k) (congrArg (12 * ·) hyear)]
    simp
  · rw [hD.fromIsoMondayOpt_one, hD.isoYear_eq]
    simp
  · have hquarter : monthIndex (N.year d) ((N.month d - 1) / 3 * 3 + 1) = 3 * (monthIndex (N.year d) (N.month d) / 3) := by
      unfold monthIndex
      omega
    rw [fromYmdOpt_first hD (by omega) (by omega), hquarter, ← monthAt_numDays hD]
    simp [monthwise]
  · rw [fromYmdOpt_first hD hone hmonth, ← monthAt_numDays hD]
    simp [monthwise]
  · rw [hD.addDays_eq_some, hD.weekday_eq, ← sub_eq_add_neg]
    simp [mondayOf]
  · constructor
    · rintro ⟨⟩
      exact ⟨id, rfl, rfl⟩
    · rintro ⟨g, hg, hb⟩
      cases hg
      rw [hD.eq_of_numDaysFromCe hb]
  · simp

/-- A date is truncated to the date of a number. -/
theorem truncateDate_eq_ok {x r : TemporalValue ch} :
    truncateDate N unit x [] = .ok r ↔
      ∃ d g b, x.date = some d ∧ dayFloor unit = some g ∧ N.numDaysFromCe b = g (N.numDaysFromCe d) ∧ r = dateValue N b := by
  unfold truncateDate
  cases hd : x.date with
  | none =>
    refine iff_of_false nofun ?_
    rintro ⟨d, g, b, h, -⟩
    nomatch h
  | some d =>
    change (okOr (truncateDateBase N unit d) _ >>= _) = _ ↔ _
    cases hbase : truncateDateBase N unit d with
    | none =>
      refine iff_of_false nofun ?_
      rintro ⟨d', g, b, h, hg, hb, -⟩
      cases h
      have := (truncateDateBase_eq_some hD).mpr ⟨g, hg, hb⟩
      rw [hbase] at this
      nomatch this
    | some b =>
      change Except.ok (dateValue N b) = _ ↔ _
      obtain ⟨g, hg, hb⟩ := (truncateDateBase_eq_some hD).mp hbase
      constructor
      · rintro ⟨⟩
        exact ⟨d, g, b, rfl, hg, hb, rfl⟩
      · rintro ⟨d', g', b', h, hg', hb', rfl⟩
        cases h
        rw [hg] at hg'
        cases hg'
        rw [hD.eq_of_numDaysFromCe (hb.trans hb'.symm)]

/-! ## Local datetimes -/

variable (hT : N.LawfulTimes)

include hT

omit hD in
theorem hmsNano_eq_ok {h m s n : Nat} {t : ch.Time} :
    hmsNano ch h m s n = .ok t ↔ N.hour t = h ∧ N.minute t = m ∧ N.second t = s ∧ N.nanosecond t = n := by
  rw [← hT.fromHmsNano_eq_some, hmsNano]
  cases ch.fromHmsNano h m s n with
  | none => exact iff_of_false nofun nofun
  | some t' =>
    change Except.ok t' = _ ↔ _
    rw [Except.ok.injEq, Option.some.injEq]

omit hD in
theorem pair_eq_ok {h m s n : Nat} {d b : ch.Date} {t : ch.Time} :
    (do return (d, ← hmsNano ch h m s n) : Exec (ch.Date × ch.Time)) = .ok (b, t) ↔
      b = d ∧ N.hour t = h ∧ N.minute t = m ∧ N.second t = s ∧ N.nanosecond t = n := by
  rw [← hmsNano_eq_ok hT]
  cases hmsNano ch h m s n with
  | error e => exact iff_of_false nofun fun h => nomatch h.2
  | ok t' =>
    change Except.ok (d, t') = .ok (b, t) ↔ _
    rw [Except.ok.injEq, Except.ok.injEq, Prod.mk.injEq, eq_comm]

omit hD in
/-- Midnight is the time whose second and nanoseconds are zero. -/
theorem midnight_iff {t : ch.Time} :
    N.hour t = 0 ∧ N.minute t = 0 ∧ N.second t = 0 ∧ N.nanosecond t = 0 ↔ N.secondsOfDay t = 0 ∧ N.nanosecond t = 0 := by
  unfold NaiveLib.secondsOfDay
  omega

theorem dateLevel_eq_ok {x : TemporalValue ch} {d b : ch.Date} {t : ch.Time} (hx : x.date = some d) :
    (do
      let td ← truncateDate N unit x []
      let date ← okOr td.date .unwrap
      return (date, ← hmsNano ch 0 0 0 0) : Exec (ch.Date × ch.Time)) = .ok (b, t) ↔
      (∃ g, dayFloor unit = some g ∧ N.numDaysFromCe b = g (N.numDaysFromCe d)) ∧ N.secondsOfDay t = 0 ∧ N.nanosecond t = 0 := by
  rw [← midnight_iff hT]
  cases htd : truncateDate N unit x [] with
  | error e =>
    refine iff_of_false nofun ?_
    rintro ⟨⟨g, hg, hb⟩, -⟩
    have := (truncateDate_eq_ok hD).mpr ⟨d, g, b, hx, hg, hb, rfl⟩
    rw [htd] at this
    nomatch this
  | ok td =>
    obtain ⟨d', g, b', hd', hg, hb', rfl⟩ := (truncateDate_eq_ok hD).mp htd
    rw [hx] at hd'
    cases hd'
    change (do return (b', ← hmsNano ch 0 0 0 0) : Exec _) = _ ↔ _
    rw [pair_eq_ok hT]
    refine and_congr_left fun _ => ?_
    constructor
    · rintro rfl
      exact ⟨g, hg, hb'⟩
    · rintro ⟨g', hg', hb⟩
      rw [hg] at hg'
      cases hg'
      exact hD.eq_of_numDaysFromCe (hb.trans hb'.symm)

omit hD hT in
/-- Fewer nanoseconds fit too. -/
theorem nanosFit_of_le {s n n' : Nat} (h : NanosFit s n) (hle : n' ≤ n) : NanosFit s n' := by
  unfold NanosFit at *
  omega

omit hD in
/-- The unit of a time of day: its hour, minute and second are what the second of the day is divided to. -/
theorem exists_pair_eq_ok {h m s n : Nat} {d : ch.Date} (hh : h < 24) (hm : m < 60) (hs : s < 60) (hn : NanosFit s n) :
    ∃ t, (do return (d, ← hmsNano ch h m s n) : Exec (ch.Date × ch.Time)) = .ok (d, t) ∧
      N.secondsOfDay t = h * 3600 + m * 60 + s ∧ N.nanosecond t = n := by
  obtain ⟨t, -, hth, htm, hts, htn⟩ := hT.exists_time hh hm hs hn
  refine ⟨t, (pair_eq_ok hT).mpr ⟨rfl, hth, htm, hts, htn⟩, ?_, htn⟩
  rw [NaiveLib.secondsOfDay, hth, htm, hts]

/-- The base of a local datetime, once the leap second is taken off. -/
def baseStamp (N : NaiveLib ch) (d : ch.Date) (t : ch.Time) : Stamp :=
  ⟨N.numDaysFromCe d, N.secondsOfDay t, N.nanosecond t % 1000000000⟩

theorem stamp_of_base {x : TemporalValue ch} {d b : ch.Date} {t u : ch.Time} (hx : x.date = some d)
    (h : truncateLocaldatetimeBase N unit x d t = .ok (b, u)) :
    ∃ F, stampFloor unit = some F ∧ baseStamp N b u = F (N.stampOf d t) := by
  have hsecond := hT.second_lt t
  have hminute := hT.minute_lt t
  have hdate : ∀ unit', (∃ g, dayFloor unit' = some g ∧ N.numDaysFromCe b = g (N.numDaysFromCe d)) ∧
      N.secondsOfDay u = 0 ∧ N.nanosecond u = 0 →
        ∃ F, stampFloor unit' = some F ∧ baseStamp N b u = F (N.stampOf d t) := by
    rintro unit' ⟨⟨g, hg, hb⟩, hsec, hns⟩
    refine ⟨fun s => ⟨g s.day, 0, 0⟩, by rw [stampFloor, hg], ?_⟩
    rw [baseStamp, hb, hsec, hns]
    rfl
  have htime : ∀ (F : Stamp → Stamp) {h m s n : Nat},
      (do return (d, ← hmsNano ch h m s n) : Exec (ch.Date × ch.Time)) = .ok (b, u) →
        F (N.stampOf d t) = ⟨N.numDaysFromCe d, h * 3600 + m * 60 + s, n % 1000000000⟩ → baseStamp N b u = F (N.stampOf d t) := by
    intro F h m s n hok hF
    obtain ⟨rfl, hh, hm, hs, hn⟩ := (pair_eq_ok hT).mp hok
    rw [hF, baseStamp, NaiveLib.secondsOfDay, hh, hm, hs, hn]
  have hsod : N.secondsOfDay t = N.hour t * 3600 + N.minute t * 60 + N.second t := rfl
  unfold truncateLocaldatetimeBase at h
  split at h
  iterate 8 exact hdate _ ((dateLevel_eq_ok hD hT hx).mp h)
  · obtain ⟨rfl, hmid⟩ := (pair_eq_ok hT).mp h
    exact hdate "day" ⟨⟨id, rfl, rfl⟩, (midnight_iff hT).mp hmid⟩
  · refine ⟨_, rfl, htime (fun s => ⟨s.day, s.second / 3600 * 3600, 0⟩) h ?_⟩
    exact congrArg (Stamp.mk _ · _) (by change N.secondsOfDay t / 3600 * 3600 = _; omega)
  · refine ⟨_, rfl, htime (fun s => ⟨s.day, s.second / 60 * 60, 0⟩) h ?_⟩
    exact congrArg (Stamp.mk _ · _) (by change N.secondsOfDay t / 60 * 60 = _; omega)
  · exact ⟨_, rfl, htime (fun s => ⟨s.day, s.second, 0⟩) h rfl⟩
  · exact ⟨_, rfl, htime (fun s => ⟨s.day, s.second, s.nanos / 1000000 * 1000000 % 1000000000⟩) h rfl⟩
  · exact ⟨_, rfl, htime (fun s => ⟨s.day, s.second, s.nanos / 1000 * 1000 % 1000000000⟩) h rfl⟩
  · nomatch h

/-- The base is there whenever its date is. -/
theorem base_of_stamp {x : TemporalValue ch} {d b : ch.Date} {t : ch.Time} {F : Stamp → Stamp} (hx : x.date = some d)
    (hF : stampFloor unit = some F) (hb : N.numDaysFromCe b = (F (N.stampOf d t)).day) :
    ∃ u, truncateLocaldatetimeBase N unit x d t = .ok (b, u) := by
  have hzero : NanosFit 0 0 := by decide
  obtain ⟨u₀, -, hu₀⟩ := hT.exists_time (h := 0) (m := 0) (s := 0) (n := 0) (by decide) (by decide) (by decide) hzero
  have hmid := (midnight_iff hT).mp hu₀
  have hdate : ∀ unit' g, dayFloor unit' = some g → stampFloor unit' = some F → N.numDaysFromCe b = g (N.numDaysFromCe d) := by
    intro unit' g hg hF'
    rw [stampFloor, hg] at hF'
    cases hF'
    exact hb
  have hsame : (F (N.stampOf d t)).day = N.numDaysFromCe d → b = d := fun h => hD.eq_of_numDaysFromCe (hb.trans h)
  have hfits := hT.nanos_fit t
  unfold truncateLocaldatetimeBase
  split
  iterate 8 exact ⟨u₀, (dateLevel_eq_ok hD hT hx).mpr ⟨⟨_, rfl, hdate _ _ rfl hF⟩, hmid⟩⟩
  · exact ⟨u₀, (pair_eq_ok hT).mpr ⟨hD.eq_of_numDaysFromCe (hdate _ _ rfl hF), hu₀⟩⟩
  · cases hF
    obtain rfl := hsame rfl
    obtain ⟨u, hu, -⟩ := exists_pair_eq_ok hT (d := b) (hT.hour_lt t) (m := 0) (s := 0) (n := 0) (by decide) (by decide) hzero
    exact ⟨u, hu⟩
  · cases hF
    obtain rfl := hsame rfl
    obtain ⟨u, hu, -⟩ := exists_pair_eq_ok hT (d := b) (hT.hour_lt t) (hT.minute_lt t) (s := 0) (n := 0) (by decide) hzero
    exact ⟨u, hu⟩
  · cases hF
    obtain rfl := hsame rfl
    obtain ⟨u, hu, -⟩ := exists_pair_eq_ok hT (d := b) (hT.hour_lt t) (hT.minute_lt t) (hT.second_lt t)
      (nanosFit_of_le hfits (Nat.zero_le _))
    exact ⟨u, hu⟩
  · cases hF
    obtain rfl := hsame rfl
    obtain ⟨u, hu, -⟩ := exists_pair_eq_ok hT (d := b) (hT.hour_lt t) (hT.minute_lt t) (hT.second_lt t)
      (nanosFit_of_le hfits (Nat.div_mul_le_self _ 1000000))
    exact ⟨u, hu⟩
  · cases hF
    obtain rfl := hsame rfl
    obtain ⟨u, hu, -⟩ := exists_pair_eq_ok hT (d := b) (hT.hour_lt t) (hT.minute_lt t) (hT.second_lt t)
      (nanosFit_of_le hfits (Nat.div_mul_le_self _ 1000))
    exact ⟨u, hu⟩
  · next h1 h2 h3 h4 h5 h6 h7 h8 h9 h10 h11 h12 h13 h14 =>
    simp [stampFloor, dayFloor, timeFloor, *] at hF

theorem stampOf_injective {d d' : ch.Date} {t t' : ch.Time} (h : N.stampOf d t = N.stampOf d' t') : d = d' ∧ t = t' := by
  injection h with hday hsecond hnanos
  exact ⟨hD.eq_of_numDaysFromCe hday, hT.eq_of_secondsOfDay hsecond hnanos⟩

omit hD in
/-- The time of the input, or midnight. -/
theorem inputTime_eq_ok {x : TemporalValue ch} {d : ch.Date} (hx : x.date = some d) :
    ∃ t, x.time.elim (hmsNano ch 0 0 0 0) .ok = .ok t ∧ N.stamp x = some (N.stampOf d t) := by
  cases ht : x.time with
  | some t =>
    refine ⟨t, rfl, ?_⟩
    rw [NaiveLib.stamp, hx, ht]
    rfl
  | none =>
    obtain ⟨t, -, hmid⟩ := hT.exists_time (h := 0) (m := 0) (s := 0) (n := 0) (by decide) (by decide) (by decide) (by decide)
    refine ⟨t, (hmsNano_eq_ok hT).mpr hmid, ?_⟩
    obtain ⟨hsec, hns⟩ := (midnight_iff hT).mp hmid
    rw [NaiveLib.stamp, hx, ht, NaiveLib.stampOf, hsec, hns]
    rfl

omit hD in
/-- Without overrides, what is left to do is to drop the leap second. -/
theorem exists_baseTime (d : ch.Date) (u : ch.Time) :
    ∃ t, ch.fromHmsNano (N.hour u) (N.minute u) (N.second u) (N.nanosecond u % 1000000000) = some t ∧
      N.stampOf d t = baseStamp N d u := by
  have hfits : NanosFit (N.second u) (N.nanosecond u % 1000000000) := .inl (by omega)
  obtain ⟨t, ht, hth, htm, hts, htn⟩ := hT.exists_time (hT.hour_lt u) (hT.minute_lt u) (hT.second_lt u) hfits
  refine ⟨t, ht, ?_⟩
  rw [NaiveLib.stampOf, NaiveLib.secondsOfDay, hth, htm, hts, htn]
  rfl

variable {build : Build}

omit hD hT in
theorem truncateLocaldatetime_error {x : TemporalValue ch} {d : ch.Date} {t : ch.Time} {e : Failure} (hx : x.date = some d)
    (ht : x.time.elim (hmsNano ch 0 0 0 0) .ok = .ok t) (hbase : truncateLocaldatetimeBase N unit x d t = .error e) :
    truncateLocaldatetime N build unit x [] = .error e := by
  unfold truncateLocaldatetime
  rw [hx, ht]
  change (truncateLocaldatetimeBase N unit x d t >>= _) = _
  rw [hbase]
  rfl

omit hD hT in
theorem truncateLocaldatetime_ok {x : TemporalValue ch} {d b : ch.Date} {t u v : ch.Time} (hx : x.date = some d)
    (ht : x.time.elim (hmsNano ch 0 0 0 0) .ok = .ok t) (hbase : truncateLocaldatetimeBase N unit x d t = .ok (b, u))
    (hv : ch.fromHmsNano (N.hour u) (N.minute u) (N.second u) (N.nanosecond u % 1000000000) = some v) :
    truncateLocaldatetime N build unit x [] = .ok (localdatetimeValue N b v) := by
  unfold truncateLocaldatetime
  rw [hx, ht]
  change (truncateLocaldatetimeBase N unit x d t >>= _) = _
  rw [hbase]
  change (okOr (ch.fromHmsNano (N.hour u) (N.minute u) (N.second u) (N.nanosecond u % 1000000000)) _ >>= _) = _
  rw [hv]
  rfl

/-- A local datetime is truncated to the date and the time of a moment. -/
theorem truncateLocaldatetime_eq_ok {x r : TemporalValue ch} :
    truncateLocaldatetime N build unit x [] = .ok r ↔
      ∃ s F d t, N.stamp x = some s ∧ stampFloor unit = some F ∧ N.stampOf d t = F s ∧ r = localdatetimeValue N d t := by
  cases hx : x.date with
  | none =>
    refine iff_of_false ?_ ?_
    · unfold truncateLocaldatetime
      rw [hx]
      nofun
    · rintro ⟨s, F, d, t, hs, -⟩
      rw [NaiveLib.stamp, hx] at hs
      nomatch hs
  | some d =>
    obtain ⟨t, ht, hs⟩ := inputTime_eq_ok hT hx
    rw [hs]
    constructor
    · intro h
      cases hbase : truncateLocaldatetimeBase N unit x d t with
      | error e =>
        rw [truncateLocaldatetime_error hx ht hbase] at h
        nomatch h
      | ok p =>
        obtain ⟨b, u⟩ := p
        obtain ⟨F, hF, hstamp⟩ := stamp_of_base hD hT hx hbase
        obtain ⟨t', ht', hlocal⟩ := exists_baseTime hT b u
        rw [truncateLocaldatetime_ok hx ht hbase ht'] at h
        cases h
        exact ⟨_, F, b, t', rfl, hF, hlocal.trans hstamp, rfl⟩
    · rintro ⟨s, F, b, t', hs', hF, hstamp, rfl⟩
      cases hs'
      have hday : N.numDaysFromCe b = (F (N.stampOf d t)).day := congrArg Stamp.day hstamp
      obtain ⟨u, hbase⟩ := base_of_stamp hD hT hx hF hday
      obtain ⟨F', hF', hstamp'⟩ := stamp_of_base hD hT hx hbase
      obtain ⟨t'', ht'', hlocal⟩ := exists_baseTime hT b u
      rw [hF] at hF'
      cases hF'
      obtain ⟨-, rfl⟩ := stampOf_injective hD hT (hlocal.trans (hstamp'.trans hstamp.symm))
      exact truncateLocaldatetime_ok hx ht hbase ht''

/-! ## Inputs -/

omit hT hD in
theorem date_of_stamp {x : TemporalValue ch} {s : Stamp} (hs : N.stamp x = some s) :
    ∃ d, x.date = some d ∧ s.day = N.numDaysFromCe d := by
  obtain ⟨d, hd, rfl⟩ := Option.map_eq_some_iff.mp hs
  refine ⟨d, hd, ?_⟩
  cases x.time <;> rfl

omit hT hD in
theorem stamp_of_date {x : TemporalValue ch} {d : ch.Date} (hx : x.date = some d) :
    ∃ s, N.stamp x = some s ∧ s.day = N.numDaysFromCe d := by
  refine ⟨_, Option.map_eq_some_iff.mpr ⟨d, hx, rfl⟩, ?_⟩
  cases x.time <;> rfl

omit hD in
theorem nanos_lt {x : TemporalValue ch} {s : Stamp} (hs : N.stamp x = some s) : s.nanos < 2000000000 := by
  obtain ⟨d, -, rfl⟩ := Option.map_eq_some_iff.mp hs
  cases x.time with
  | none => exact Nat.zero_lt_succ _
  | some t =>
    have hfits := hT.nanos_fit t
    change N.nanosecond t < 2000000000
    unfold NanosFit at hfits
    omega

omit hT in
theorem roundsDown_iff {x : TemporalValue ch} {s : Stamp} (hs : N.stamp x = some s) :
    RoundsDown N unit x ↔ ∀ step, yearStep unit = some step → 0 ≤ yearOfDay s.day ∨ step ∣ yearOfDay s.day := by
  obtain ⟨d, hd, hday⟩ := date_of_stamp hs
  rw [hday, yearOfDay_numDays hD]
  constructor
  · exact fun h step => h d step hd
  · intro h d' step hd'
    rw [hd] at hd'
    cases hd'
    exact h step

omit hT in
/-- A year that is divided towards zero stays in the range of years. -/
theorem exists_date {step : Int} (h : yearStep unit = some step) (d : ch.Date) :
    ∃ g b, dayFloor unit = some g ∧ N.numDaysFromCe b = g (N.numDaysFromCe d) := by
  have hyears : ∀ step : Int, 0 < step → (N.fromYmdOpt ((N.year d).tdiv step * step) 1 1).isSome := by
    intro step hstep
    have hmin := hD.minYear_le d
    have hmax := hD.le_maxYear d
    have hsplit := Int.tdiv_mul_add_tmod (N.year d) step
    unfold minYear at hmin
    unfold maxYear at hmax
    have hrange : minYear ≤ (N.year d).tdiv step * step ∧ (N.year d).tdiv step * step ≤ maxYear := by
      unfold minYear maxYear
      rcases Int.le_total 0 (N.year d) with hpos | hneg
      · have := Int.tmod_nonneg step hpos
        have := mul_nonneg (Int.tdiv_nonneg hpos hstep.le) hstep.le
        omega
      · have hmod : 0 ≤ (-N.year d).tmod step := Int.tmod_nonneg step (by omega)
        have hdiv : 0 ≤ (-N.year d).tdiv step := Int.tdiv_nonneg (by omega) hstep.le
        have := mul_nonneg hdiv hstep.le
        rw [Int.neg_tmod] at hmod
        rw [Int.neg_tdiv, neg_mul] at this
        omega
    exact hD.fromYmdOpt_isSome hrange.1 hrange.2 le_rfl (by decide) le_rfl (Nat.le_of_ble_eq_true rfl)
  have hbase : (truncateDateBase N unit d).isSome := by
    unfold yearStep at h
    split at h
    · exact hyears 1000 (by decide)
    · exact hyears 100 (by decide)
    · exact hyears 10 (by decide)
    · nomatch h
  obtain ⟨b, hb⟩ := Option.isSome_iff_exists.mp hbase
  obtain ⟨g, hg, hnum⟩ := (truncateDateBase_eq_some hD).mp hb
  exact ⟨g, b, hg, hnum⟩

/-! ## The parts of the theorem -/

omit hD hT in
theorem stamp_dateValue (b : ch.Date) : N.stamp (dateValue N b) = some ⟨N.numDaysFromCe b, 0, 0⟩ := rfl

omit hT in
theorem isFloor_truncateDate_iff (x : TemporalValue ch) : IsFloor N (truncateDate N unit · []) x ↔ RoundsDown N unit x := by
  constructor
  · intro h d step hx hstep
    obtain ⟨g, b, hg, hb⟩ := exists_date hD hstep d
    obtain ⟨⟨s, s', hs, hs', hle⟩, -⟩ := h _ ((truncateDate_eq_ok hD).mpr ⟨d, g, b, hx, hg, hb, rfl⟩)
    obtain ⟨s'', hs'', hday⟩ := stamp_of_date (N := N) hx
    rw [hs''] at hs'
    rw [stamp_dateValue] at hs
    cases hs'
    cases hs
    rw [Stamp.le_iff] at hle
    have hfloor : g (N.numDaysFromCe d) ≤ N.numDaysFromCe d := by
      rw [← hb, ← hday]
      dsimp only at hle
      omega
    have := (dayFloor_le_iff hg _).mp hfloor step hstep
    rwa [yearOfDay_numDays hD] at this
  · intro h r hr
    obtain ⟨d, g, b, hx, hg, hb, rfl⟩ := (truncateDate_eq_ok hD).mp hr
    obtain ⟨s, hs, hday⟩ := stamp_of_date (N := N) hx
    refine ⟨⟨_, s, stamp_dateValue b, hs, ?_⟩, (truncateDate_eq_ok hD).mpr ⟨b, g, b, rfl, hg, ?_, rfl⟩⟩
    · have hle := (dayFloor_le_iff hg s.day).mpr ((roundsDown_iff hD hs).mp h)
      rw [Stamp.le_iff]
      rw [hday] at hle ⊢
      dsimp only
      omega
    · rw [hb, dayFloor_idem hg]

omit hT in
theorem keepsOrder_truncateDate {x y : TemporalValue ch} (h : NotAfter N x y) : KeepsOrder N (truncateDate N unit · []) x y := by
  intro r r' hr hr'
  obtain ⟨s, s', hs, hs', hle⟩ := h
  obtain ⟨d, g, b, hx, hg, hb, rfl⟩ := (truncateDate_eq_ok hD).mp hr
  obtain ⟨d', g', b', hy, hg', hb', rfl⟩ := (truncateDate_eq_ok hD).mp hr'
  obtain ⟨e, he, hday⟩ := date_of_stamp hs
  obtain ⟨e', he', hday'⟩ := date_of_stamp hs'
  rw [hx] at he
  rw [hy] at he'
  rw [hg] at hg'
  cases he
  cases he'
  cases hg'
  rw [Stamp.le_iff] at hle
  have hmono := dayFloor_mono hg (show N.numDaysFromCe d ≤ N.numDaysFromCe d' by omega)
  refine ⟨_, _, stamp_dateValue b, stamp_dateValue b', ?_⟩
  rw [Stamp.le_iff]
  dsimp only
  omega

theorem isFloor_truncateLocaldatetime_iff (x : TemporalValue ch) :
    IsFloor N (truncateLocaldatetime N build unit · []) x ↔ RoundsDown N unit x := by
  constructor
  · intro h d step hx hstep
    obtain ⟨g, b, hg, hb⟩ := exists_date hD hstep d
    obtain ⟨s, hs, hday⟩ := stamp_of_date (N := N) hx
    obtain ⟨t, -, hmid⟩ := hT.exists_time (h := 0) (m := 0) (s := 0) (n := 0) (by decide) (by decide) (by decide) (by decide)
    obtain ⟨hsec, hns⟩ := (midnight_iff hT).mp hmid
    have hF : stampFloor unit = some fun s => ⟨g s.day, 0, 0⟩ := by rw [stampFloor, hg]
    have hstamp : N.stampOf b t = ⟨g s.day, 0, 0⟩ := by rw [NaiveLib.stampOf, hb, hday, hsec, hns]
    obtain ⟨⟨s', s'', hs', hs'', hle⟩, -⟩ := h _ ((truncateLocaldatetime_eq_ok hD hT).mpr ⟨s, _, b, t, hs, hF, hstamp, rfl⟩)
    rw [hs] at hs''
    cases hs''
    have hvalue : N.stamp (localdatetimeValue N b t) = some (N.stampOf b t) := rfl
    rw [hvalue, hstamp] at hs'
    cases hs'
    have := (stampFloor_le_iff hF s).mp hle step hstep
    rwa [hday, yearOfDay_numDays hD] at this
  · intro h r hr
    obtain ⟨s, F, d, t, hs, hF, hstamp, rfl⟩ := (truncateLocaldatetime_eq_ok hD hT).mp hr
    refine ⟨⟨_, s, rfl, hs, ?_⟩, (truncateLocaldatetime_eq_ok hD hT).mpr ⟨_, F, d, t, rfl, hF, ?_, rfl⟩⟩
    · change N.stampOf d t ≤ s
      rw [hstamp]
      exact (stampFloor_le_iff hF s).mpr ((roundsDown_iff hD hs).mp h)
    · change N.stampOf d t = F (N.stampOf d t)
      rw [hstamp, stampFloor_idem hF]

omit hD in
/-- The second of a moment with other nanoseconds. -/
theorem exists_moment {x : TemporalValue ch} {s : Stamp} (hs : N.stamp x = some s) {n : Nat} (hn : n < 1000000000) :
    ∃ d t, N.stampOf d t = ⟨s.day, s.second, n⟩ := by
  obtain ⟨d, hd, -⟩ := date_of_stamp hs
  obtain ⟨t, -, hstamp⟩ := inputTime_eq_ok hT hd
  rw [hs] at hstamp
  cases hstamp
  obtain ⟨u, -, hh, hm, hsec, hns⟩ := hT.exists_time (hT.hour_lt t) (hT.minute_lt t) (hT.second_lt t) (.inl hn)
  refine ⟨d, u, ?_⟩
  rw [NaiveLib.stampOf, NaiveLib.secondsOfDay, hh, hm, hsec, hns]
  rfl

omit hD hT in
theorem stampFloor_of_fraction {u : Nat} (h : fractionStep unit = some u) :
    stampFloor unit = some fun s => ⟨s.day, s.second, s.nanos / u * u % 1000000000⟩ := by
  unfold fractionStep at h
  split at h
  · cases h
    rfl
  · cases h
    rfl
  · nomatch h

/-- The order is kept whenever both values can be truncated and no leap second is dropped. -/
theorem keepsOrder_truncateLocaldatetime_iff {x y : TemporalValue ch} (h : NotAfter N x y) :
    KeepsOrder N (truncateLocaldatetime N build unit · []) x y ↔ ¬DropsLeapSecond N unit x y := by
  obtain ⟨s, s', hs, hs', hle⟩ := h
  have hdrops : DropsLeapSecond N unit x y ↔ ∃ u, fractionStep unit = some u ∧ s.day = s'.day ∧ s.second = s'.second ∧
      s.nanos < 1000000000 ∧ 1000000000 ≤ s'.nanos ∧ (s'.nanos - 1000000000) / u < s.nanos / u := by
    constructor
    · rintro ⟨u, a, b, hu, ha, hb, hrest⟩
      rw [hs] at ha
      rw [hs'] at hb
      cases ha
      cases hb
      exact ⟨u, hu, hrest⟩
    · exact fun ⟨u, hu, hrest⟩ => ⟨u, s, s', hu, hs, hs', hrest⟩
  rw [hdrops]
  constructor
  · intro hkeeps hdropped
    obtain ⟨u, hu, -⟩ := id hdropped
    have hF := stampFloor_of_fraction hu
    obtain ⟨d, t, hstamp⟩ := exists_moment hT hs (Nat.mod_lt (s.nanos / u * u) (by decide))
    obtain ⟨d', t', hstamp'⟩ := exists_moment hT hs' (Nat.mod_lt (s'.nanos / u * u) (by decide))
    obtain ⟨a, b, ha, hb, hab⟩ := hkeeps _ _ ((truncateLocaldatetime_eq_ok hD hT).mpr ⟨s, _, d, t, hs, hF, hstamp, rfl⟩)
      ((truncateLocaldatetime_eq_ok hD hT).mpr ⟨s', _, d', t', hs', hF, hstamp', rfl⟩)
    cases ha
    cases hb
    change N.stampOf d t ≤ N.stampOf d' t' at hab
    rw [hstamp, hstamp'] at hab
    exact (stampFloor_mono_iff hF hle (nanos_lt hT hs) (nanos_lt hT hs')).mp hab hdropped
  · intro hnot r r' hr hr'
    obtain ⟨a, F, d, t, ha, hF, hstamp, rfl⟩ := (truncateLocaldatetime_eq_ok hD hT).mp hr
    obtain ⟨b, F', d', t', hb, hF', hstamp', rfl⟩ := (truncateLocaldatetime_eq_ok hD hT).mp hr'
    rw [hs] at ha
    rw [hs'] at hb
    rw [hF] at hF'
    cases ha
    cases hb
    cases hF'
    refine ⟨_, _, rfl, rfl, ?_⟩
    change N.stampOf d t ≤ N.stampOf d' t'
    rw [hstamp, hstamp']
    exact (stampFloor_mono_iff hF hle (nanos_lt hT hs) (nanos_lt hT hs')).mpr hnot

end TruncationAux

open TruncationAux

/-- Truncation is a floor for a unit of many years unless it goes up from a negative year, and for every other unit always. It
keeps the order of dates always, and that of local datetimes unless it drops a leap second. -/
theorem truncation_floor_iff (hD : N.LawfulDates) (hT : N.LawfulTimes) (build : Build) (unit : String) (x y : TemporalValue ch) :
    (IsFloor N (truncateDate N unit · []) x ↔ RoundsDown N unit x) ∧
      (IsFloor N (truncateLocaldatetime N build unit · []) x ↔ RoundsDown N unit x) ∧
      (NotAfter N x y → KeepsOrder N (truncateDate N unit · []) x y ∧
        (KeepsOrder N (truncateLocaldatetime N build unit · []) x y ↔ ¬DropsLeapSecond N unit x y)) :=
  ⟨isFloor_truncateDate_iff hD x, isFloor_truncateLocaldatetime_iff hD hT x,
    fun h => ⟨keepsOrder_truncateDate hD h, keepsOrder_truncateLocaldatetime_iff hD hT h⟩⟩

theorem one_le_twelve : 1 ≤ 12 := by decide

theorem one_le_thirtyOne : 1 ≤ 31 := by decide

/-- The last day of the year minus one. -/
def yearMinusOne : GregorianDate := ⟨⟨-1, 12, 31, one_le_twelve, by decide, one_le_thirtyOne, by decide⟩, by decide, by decide⟩

/-- Months are floors in every year, and a day is not after itself. -/
theorem truncation_floor_iff_month :
    IsFloor Proleptic.lib (truncateDate Proleptic.lib "month" · []) (dateValue Proleptic.lib yearMinusOne) ∧
      KeepsOrder Proleptic.lib (truncateDate Proleptic.lib "month" · []) (dateValue Proleptic.lib yearMinusOne)
        (dateValue Proleptic.lib yearMinusOne) := by
  have hself : NotAfter Proleptic.lib (dateValue Proleptic.lib yearMinusOne) (dateValue Proleptic.lib yearMinusOne) :=
    ⟨_, _, stamp_dateValue _, stamp_dateValue _, .inr ⟨rfl, .inr ⟨rfl, le_rfl⟩⟩⟩
  obtain ⟨hfloor, -, horder⟩ := truncation_floor_iff Proleptic.lib_lawfulDates Proleptic.lib_lawfulTimes .debug "month"
    (dateValue Proleptic.lib yearMinusOne) (dateValue Proleptic.lib yearMinusOne)
  refine ⟨hfloor.mpr ?_, (horder hself).1⟩
  intro d step _ hstep
  nomatch hstep

/-- The last day of the year minus one is truncated to the first day of the year zero. -/
theorem decade_goes_up :
    ¬IsFloor Proleptic.lib (truncateDate Proleptic.lib "decade" · []) (dateValue Proleptic.lib yearMinusOne) := by
  intro h
  have hrounds := (isFloor_truncateDate_iff Proleptic.lib_lawfulDates _).mp h
  have hyear := hrounds yearMinusOne 10 rfl rfl
  revert hyear
  decide

end PgEddy
