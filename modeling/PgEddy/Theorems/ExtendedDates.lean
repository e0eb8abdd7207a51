import PgEddy.Lemmas.DayCounts

/-!
# Differences of dates outside the range of the calendar library

The difference in days is right where the years of both dates are counted alike. The difference in months and days is right as
long as no month is given back: the days of the month are not counted then.
-/

namespace PgEddy

open Gregorian Signed64 DayCountsAux

variable {ch : Chrono} {N : NaiveLib ch}

/-! ## The conditions -/

/-- The index of a month as a machine integer. -/
def wrappedIndex (k : Int) : Int := (Int64.ofInt k).toInt

/-- The first date moved into the month of the second one. -/
def aligned (a b : Civil) : Civil := a.inMonth (wrappedIndex b.index)

/-- A month is given back: the days point the other way than the months. -/
def Borrows (a b : Civil) : Prop :=
  a.index < b.index ∧ b.day < (aligned a b).day ∨ b.index < a.index ∧ (aligned a b).day < b.day

instance (a b : Civil) : Decidable (Borrows a b) := by
  unfold Borrows
  infer_instance

/-- The month next to that of the second date, on the side of the first date. -/
def nearer (a b : Civil) : Int := if a.index < b.index then b.index - 1 else b.index + 1

/-- The months between the dates are a machine integer, and in a debug build all numbers that they are made of are. -/
def MonthsCounted (build : Build) (a b : Civil) : Prop :=
  Fits (b.index - a.index) ∧ (build = .debug → Fits (b.year - a.year) ∧ Fits ((b.year - a.year) * 12) ∧ Fits (a.year * 12) ∧
    Fits a.index ∧ Fits b.index)

/-- No month is given back, and the day is cut to the length of the right month; or a month is given back, and the calendar
library has both dates. -/
def DifferenceCounted (build : Build) (a b : Civil) : Prop :=
  MonthsCounted build a b ∧
    (¬Borrows a b ∧ (aligned a b).day = (a.inMonth b.index).day ∨
      Borrows a b ∧ ChronoYear b.year ∧ ChronoYear (yearOf (nearer a b)))

instance (build : Build) (a b : Civil) : Decidable (DifferenceCounted build a b) := by
  unfold DifferenceCounted MonthsCounted
  infer_instance

/-- The value is a date: it has no time and no offset. -/
def IsDate (tv : TemporalValue ch) : Prop := tv.time = none ∧ tv.offsetSecs = none

/-- The months and the days lead from the first date to the second one. -/
def LeadsTo (a b : Civil) (months days : Int) : Prop := (a.addMonths months).dayNumber + days = b.dayNumber

namespace ExtendedDatesAux

/-! ## Moving a date by months -/

theorem daysInMonthExt_eq {y : Int} (h : Fits y) {m : Nat} (h1 : 1 ≤ m) (h2 : m ≤ 12) :
    daysInMonthExt (.ofInt y) m = daysInMonth y m := by
  have hmod : ∀ n : Int64, n.toInt ≠ 0 → (Int64.ofInt y % n = 0 ↔ y % n.toInt = 0) := by
    intro n hn
    rw [← Int64.toInt_inj, Int64.toInt_mod, toInt_ofInt_of_fits h]
    exact ⟨fun h => Int.emod_eq_zero_of_dvd (Int.dvd_of_tmod_eq_zero h),
      fun h => Int.tmod_eq_zero_of_dvd (Int.dvd_of_emod_eq_zero h)⟩
  have hleap : (Int64.ofInt y % 4 = 0 ∧ (Int64.ofInt y % 100 ≠ 0 ∨ Int64.ofInt y % 400 = 0)) ↔ isLeap y = true := by
    rw [isLeap_iff, Ne, hmod 4 (by decide), hmod 100 (by decide), hmod 400 (by decide)]
    change y % 4 = 0 ∧ (¬y % 100 = 0 ∨ y % 400 = 0) ↔ _
    omega
  interval_cases m <;> simp [daysInMonthExt, daysInMonth, hleap]

/-- The date in a month. -/
theorem ymd_inMonth {a : Civil} {k : Int} (h : Fits k) :
    ymd (a.inMonth k) =
      ⟨.ofInt (k / 12), (k % 12).toNat + 1, min a.day (daysInMonthExt (.ofInt (k / 12)) ((k % 12).toNat + 1))⟩ := by
  have hyear : Fits (yearOf k) := by
    unfold Fits yearOf at *
    omega
  have hlength : daysInMonthExt (.ofInt (k / 12)) ((k % 12).toNat + 1) = monthLength k :=
    daysInMonthExt_eq hyear (one_le_monthOf k) (monthOf_le k)
  rw [hlength]
  rfl

/-- Three terms are added in turn, and their sum is used. -/
theorem sums_bind_eq_ok {α : Type} {build : Build} {x y z : Int} {f : Int64 → Exec α} {r : α} :
    (do
      let sum ← build.int x
      let sum ← build.int (sum.toInt + y)
      let sum ← build.int (sum.toInt + z)
      f sum) = .ok r ↔
      (build = .debug → Fits x ∧ Fits (x + y) ∧ Fits (x + y + z)) ∧ f (.ofInt (x + y + z)) = .ok r := by
  cases build with
  | release =>
    change f (.ofInt ((Int64.ofInt ((Int64.ofInt x).toInt + y)).toInt + z)) = _ ↔ _
    rw [ofInt_toInt_add, add_assoc, ofInt_toInt_add, ← add_assoc]
    exact ⟨fun h => ⟨nofun, h⟩, fun h => h.2⟩
  | debug =>
    simp only [debug_bind, true_imp_iff, and_assoc]
    refine and_congr_right fun h1 => ?_
    rw [toInt_ofInt_of_fits h1]
    refine and_congr_right fun h2 => ?_
    rw [toInt_ofInt_of_fits h2]

theorem fits_wrappedIndex (k : Int) : Fits (wrappedIndex k) := fits_toInt _

theorem addMonthsExt_eq_ok {build : Build} {a : Civil} (ha : Fits a.year) {m : Int64} {d : Ymd} :
    addMonthsExt build (ymd a) m = .ok d ↔
      (build = .debug → Fits (a.year * 12) ∧ Fits a.index ∧ Fits (a.index + m.toInt)) ∧
        d = ymd (a.inMonth (wrappedIndex (a.index + m.toInt))) := by
  have hindex : a.year * 12 + ((ymd a).month - 1) = a.index := rfl
  rw [ymd_inMonth (fits_wrappedIndex _)]
  unfold addMonthsExt
  rw [toInt_year ha, sums_bind_eq_ok, hindex]
  refine and_congr_right fun _ => ?_
  change Except.ok _ = Except.ok d ↔ _
  rw [Except.ok.injEq, eq_comm]
  rfl

/-! ## The difference in months and days -/

/-- The days that are counted: those of the calendar library, or those of the month. -/
theorem toInt_diffDays (hD : N.LawfulDates) {c b : Civil} (hc : Fits c.year) (hb : Fits b.year) :
    (ChronoYear c.year ∧ ChronoYear b.year →
        (extendedDateDiffDays N (ymd c) (ymd b)).toInt = b.dayNumber - c.dayNumber) ∧
      (¬(ChronoYear c.year ∧ ChronoYear b.year) → (extendedDateDiffDays N (ymd c) (ymd b)).toInt = b.day - c.day) := by
  constructor
  · rintro ⟨hrc, hrb⟩
    obtain ⟨cd, hcd⟩ := (exists_chronoDate_iff hD hc).mpr hrc
    obtain ⟨bd, hbd⟩ := (exists_chronoDate_iff hD hb).mpr hrb
    rw [extendedDateDiffDays, hcd, hbd]
    dsimp only
    rw [(chronoDate_eq_some hD hc).mp hcd, (chronoDate_eq_some hD hb).mp hbd]
    exact toInt_ofInt_of_fits (fits_of_inRange hrc hrb)
  · intro hnot
    have hcday := c.day_le_monthLength
    have hbday := b.day_le_monthLength
    have hc31 := monthLength_le c.index
    have hb31 := monthLength_le b.index
    have hfits : Fits ((b.day : Int) - c.day) := by
      unfold Fits
      omega
    have hday : (Int64.ofInt ((ymd b).day - (ymd c).day)).toInt = b.day - c.day := toInt_ofInt_of_fits hfits
    rw [extendedDateDiffDays]
    cases hcd : chronoDate N (ymd c) with
    | none => exact hday
    | some cd =>
      cases hbd : chronoDate N (ymd b) with
      | none => exact hday
      | some bd => exact absurd ⟨(exists_chronoDate_iff hD hc).mp ⟨cd, hcd⟩, (exists_chronoDate_iff hD hb).mp ⟨bd, hbd⟩⟩ hnot

theorem fits_yearOf {k : Int} (h : Fits k) : Fits (yearOf k) := by
  unfold Fits yearOf at *
  omega

/-- The index of a month of the calendar library is a machine integer. -/
theorem fits_index {c : Civil} (h : ChronoYear c.year) : Fits c.index ∧ Fits (c.index - 1) ∧ Fits (c.index + 1) := by
  have h1 := c.one_le_month
  have h2 := c.month_le
  unfold ChronoYear minYear maxYear at h
  unfold Fits Civil.index monthIndex
  omega

theorem wrappedIndex_of_fits {k : Int} (h : Fits k) : wrappedIndex k = k := toInt_ofInt_of_fits h

/-- The days from the first date, moved into the month of the second one. -/
theorem toInt_firstDays (hD : N.LawfulDates) {a b : Civil} (hb : Fits b.year) :
    (extendedDateDiffDays N (ymd (aligned a b)) (ymd b)).toInt = b.day - (aligned a b).day := by
  obtain ⟨hin, hout⟩ := toInt_diffDays hD (c := aligned a b) (fits_yearOf (fits_wrappedIndex _)) hb
  by_cases h : ChronoYear (aligned a b).year ∧ ChronoYear b.year
  · have hindex : (aligned a b).index = b.index := (Civil.index_inMonth _ _).trans (wrappedIndex_of_fits (fits_index h.2).1)
    rw [hin h, Civil.dayNumber_eq, Civil.dayNumber_eq, hindex]
    omega
  · exact hout h

/-- A difference of years is turned into months. -/
theorem months_bind_eq_ok {α : Type} {build : Build} {x y : Int} {f : Int64 → Exec α} {r : α} :
    (do
      let years ← build.int x
      let scaled ← build.int (years.toInt * 12)
      let months ← build.int (scaled.toInt + y)
      f months) = .ok r ↔
      (build = .debug → Fits x ∧ Fits (x * 12) ∧ Fits (x * 12 + y)) ∧ f (.ofInt (x * 12 + y)) = .ok r := by
  cases build with
  | release =>
    change f (.ofInt ((Int64.ofInt ((Int64.ofInt x).toInt * 12)).toInt + y)) = _ ↔ _
    rw [ofInt_toInt_add, Int64.ofInt_add, Int64.ofInt_mul, Int64.ofInt_toInt, ← Int64.ofInt_mul, ← Int64.ofInt_add]
    exact ⟨fun h => ⟨nofun, h⟩, fun h => h.2⟩
  | debug =>
    simp only [debug_bind, true_imp_iff, and_assoc]
    refine and_congr_right fun h1 => ?_
    rw [toInt_ofInt_of_fits h1]
    refine and_congr_right fun h2 => ?_
    rw [toInt_ofInt_of_fits h2]

/-- The months between two dates as a machine integer. -/
def machineMonths (a b : Civil) : Int64 := .ofInt (b.index - a.index)

theorem calendarDifference_eq_ok {build : Build} {a b : Civil} (ha : Fits a.year) (hb : Fits b.year) {p : Int64 × Int64} :
    calendarDifference N build (ymd a) (ymd b) = .ok p ↔
      (build = .debug → Fits (b.index - a.index) ∧ Fits (b.year - a.year) ∧ Fits ((b.year - a.year) * 12) ∧
        Fits (a.year * 12) ∧ Fits a.index ∧ Fits b.index) ∧
        giveBackMonth N build (ymd a) (ymd b) (machineMonths a b) (extendedDateDiffDays N (ymd (aligned a b)) (ymd b)) =
          .ok p := by
  have hmonths : (b.year - a.year) * 12 + ((ymd b).month - (ymd a).month) = b.index - a.index := by
    change (b.year - a.year) * 12 + (b.month - a.month) = b.year * 12 + (b.month - 1) - (a.year * 12 + (a.month - 1))
    omega
  have hwrapped : wrappedIndex (a.index + (Int64.ofInt (b.index - a.index)).toInt) = wrappedIndex b.index := by
    rw [wrappedIndex, add_comm, ofInt_toInt_add, sub_add_cancel, wrappedIndex]
  unfold calendarDifference
  rw [toInt_year ha, toInt_year hb, months_bind_eq_ok, hmonths, Fallible.bind_eq_ok]
  simp only [addMonthsExt_eq_ok ha, hwrapped, and_assoc]
  constructor
  · rintro ⟨h1, d, h2, rfl, hrest⟩
    refine ⟨fun h => ?_, hrest⟩
    obtain ⟨hy, hy12, hm⟩ := h1 h
    obtain ⟨ha12, hai, hbi⟩ := h2 h
    rw [toInt_ofInt_of_fits hm, add_sub_cancel] at hbi
    exact ⟨hm, hy, hy12, ha12, hai, hbi⟩
  · rintro ⟨h1, hrest⟩
    refine ⟨fun h => ?_, _, fun h => ?_, rfl, hrest⟩
    · obtain ⟨hm, hy, hy12, -⟩ := h1 h
      exact ⟨hy, hy12, hm⟩
    · obtain ⟨hm, -, -, ha12, hai, hbi⟩ := h1 h
      rw [toInt_ofInt_of_fits hm, add_sub_cancel]
      exact ⟨ha12, hai, hbi⟩

/-- Once a month is given back, the days are right just when the calendar library counts them. -/
theorem moved_iff (hD : N.LawfulDates) {build : Build} {a b : Civil} (ha : Fits a.year) (hb : Fits b.year) {k : Int} {m : Int64}
    (hk : k = b.index - 1 ∨ k = b.index + 1) (hm : m.toInt = k - a.index)
    (hdebug : build = .debug → Fits (a.year * 12) ∧ Fits a.index) :
    (∃ p : Int64 × Int64, (do
        let aligned ← addMonthsExt build (ymd a) m
        return (m, extendedDateDiffDays N aligned (ymd b)) : Exec (Int64 × Int64)) = .ok p ∧ LeadsTo a b p.1.toInt p.2.toInt) ↔
      ChronoYear b.year ∧ ChronoYear (yearOf k) := by
  have hsum : a.index + m.toInt = k := by omega
  have hadd : a.addMonths m.toInt = a.inMonth k := by rw [Civil.addMonths, hsum]
  have hwrapped : ChronoYear b.year → Fits k ∧ wrappedIndex k = k := by
    intro hrange
    obtain ⟨-, h1, h2⟩ := fits_index hrange
    have hfits : Fits k := by rcases hk with rfl | rfl <;> assumption
    exact ⟨hfits, wrappedIndex_of_fits hfits⟩
  obtain ⟨hin, hout⟩ := toInt_diffDays hD (c := a.inMonth (wrappedIndex k)) (fits_yearOf (fits_wrappedIndex _)) hb
  constructor
  · rintro ⟨p, hp, hleads⟩
    obtain ⟨d, hd, hp⟩ := Fallible.bind_eq_ok.mp hp
    obtain ⟨-, rfl⟩ := (addMonthsExt_eq_ok ha).mp hd
    cases hp
    rw [hsum, LeadsTo, hadd] at hleads
    by_contra hnot
    have hout := hout fun h => hnot ⟨h.2, by rw [← (hwrapped h.2).2]; exact h.1⟩
    rw [hout, Civil.dayNumber_inMonth, Civil.dayNumber_eq, Civil.day_inMonth] at hleads
    have h1 := le_monthLength k
    have h2 := monthLength_le (wrappedIndex k)
    have h3 := le_monthLength (wrappedIndex k)
    have h4 := le_monthLength b.index
    have h5 := a.one_le_day
    rcases hk with rfl | rfl
    · have hstart := monthStart_succ (b.index - 1)
      rw [sub_add_cancel] at hstart
      omega
    · have hstart := monthStart_succ b.index
      omega
  · rintro ⟨hrb, hrk⟩
    obtain ⟨hfits, heq⟩ := hwrapped hrb
    refine ⟨(m, _), Fallible.bind_eq_ok.mpr ⟨_, (addMonthsExt_eq_ok ha).mpr ⟨fun h => ?_, rfl⟩, rfl⟩, ?_⟩
    · rw [hsum]
      exact ⟨(hdebug h).1, (hdebug h).2, hfits⟩
    · rw [hsum, LeadsTo, hadd]
      dsimp only
      rw [hin ⟨by rw [heq]; exact hrk, hrb⟩, heq]
      omega

theorem toInt_zero : (0 : Int64).toInt = 0 := rfl

/-- The months between dates that are a machine integer. -/
theorem giveBackMonth_iff (hD : N.LawfulDates) {build : Build} {a b : Civil} (ha : Fits a.year) (hb : Fits b.year)
    (hfits : Fits (b.index - a.index)) (hdebug : build = .debug → Fits (a.year * 12) ∧ Fits a.index) :
    (∃ p, giveBackMonth N build (ymd a) (ymd b) (machineMonths a b) (extendedDateDiffDays N (ymd (aligned a b)) (ymd b)) = .ok p ∧
        LeadsTo a b p.1.toInt p.2.toInt) ↔
      ¬Borrows a b ∧ (aligned a b).day = (a.inMonth b.index).day ∨
        Borrows a b ∧ ChronoYear b.year ∧ ChronoYear (yearOf (nearer a b)) := by
  have hmonths : (machineMonths a b).toInt = b.index - a.index := toInt_ofInt_of_fits hfits
  have hdays := toInt_firstDays (N := N) hD (a := a) hb
  have hone : ∀ z : Int, Fits z → build.int z = .ok (.ofInt z) := fun z hz => int_of_fits hz
  have hforward : (0 < machineMonths a b ∧ extendedDateDiffDays N (ymd (aligned a b)) (ymd b) < 0) ↔
      a.index < b.index ∧ b.day < (aligned a b).day := by
    rw [Int64.lt_iff_toInt_lt, Int64.lt_iff_toInt_lt, toInt_zero, hmonths, hdays]
    omega
  have hbackward : (machineMonths a b < 0 ∧ 0 < extendedDateDiffDays N (ymd (aligned a b)) (ymd b)) ↔
      b.index < a.index ∧ (aligned a b).day < b.day := by
    rw [Int64.lt_iff_toInt_lt, Int64.lt_iff_toInt_lt, toInt_zero, hmonths, hdays]
    omega
  unfold giveBackMonth
  split
  · next h =>
    rw [hforward] at h
    have hborrows : Borrows a b := .inl (by omega)
    have hnearer : nearer a b = b.index - 1 := if_pos (by omega)
    have hm : Fits (b.index - a.index - 1) := by
      unfold Fits at *
      omega
    rw [hmonths, hone _ hm, Fallible.ok_bind, moved_iff hD ha hb (k := b.index - 1) (.inl rfl) _ hdebug]
    · simp only [hborrows, hnearer, true_and, not_true_eq_false, false_and, false_or]
    · rw [toInt_ofInt_of_fits hm]
      omega
  · next hnot =>
    rw [hforward] at hnot
    split
    · next h =>
      rw [hbackward] at h
      have hborrows : Borrows a b := .inr (by omega)
      have hnearer : nearer a b = b.index + 1 := if_neg (by omega)
      have hm : Fits (b.index - a.index + 1) := by
        unfold Fits at *
        omega
      rw [hmonths, hone _ hm, Fallible.ok_bind, moved_iff hD ha hb (k := b.index + 1) (.inr rfl) _ hdebug]
      · simp only [hborrows, hnearer, true_and, not_true_eq_false, false_and, false_or]
      · rw [toInt_ofInt_of_fits hm]
        omega
    · next hnot' =>
      rw [hbackward] at hnot'
      have hborrows : ¬Borrows a b := by
        unfold Borrows
        omega
      have hadd : a.addMonths (b.index - a.index) = a.inMonth b.index := by rw [Civil.addMonths, add_sub_cancel]
      have hresult : (∃ p : Int64 × Int64, (pure (machineMonths a b, extendedDateDiffDays N (ymd (aligned a b)) (ymd b)) :
          Exec (Int64 × Int64)) = .ok p ∧ LeadsTo a b p.1.toInt p.2.toInt) ↔
        LeadsTo a b (b.index - a.index) (b.day - (aligned a b).day) := by
        rw [← hmonths, ← hdays]
        constructor
        · rintro ⟨p, hp, h⟩
          cases hp
          exact h
        · exact fun h => ⟨_, rfl, h⟩
      rw [hresult, LeadsTo, hadd, Civil.dayNumber_eq, Civil.dayNumber_eq, Civil.index_inMonth]
      simp only [hborrows, not_false_eq_true, true_and, false_and, or_false]
      omega

/-- At most one month is given back. -/
theorem months_of_giveBackMonth {build : Build} {l r : Ymd} {m rem : Int64} {p : Int64 × Int64}
    (h : giveBackMonth N build l r m rem = .ok p) : -1 ≤ p.1.toInt - m.toInt ∧ p.1.toInt - m.toInt ≤ 1 := by
  have hm := fits_toInt m
  unfold giveBackMonth at h
  split at h
  · next hc =>
    have hpos := Int64.lt_iff_toInt_lt.mp hc.1
    rw [toInt_zero] at hpos
    have hfits : Fits (m.toInt - 1) := by
      unfold Fits at *
      omega
    rw [int_of_fits hfits, Fallible.ok_bind] at h
    obtain ⟨d, -, h⟩ := Fallible.bind_eq_ok.mp h
    cases h
    dsimp only
    rw [toInt_ofInt_of_fits hfits]
    omega
  · split at h
    · next hc =>
      have hneg := Int64.lt_iff_toInt_lt.mp hc.1
      rw [toInt_zero] at hneg
      have hfits : Fits (m.toInt + 1) := by
        unfold Fits at *
        omega
      rw [int_of_fits hfits, Fallible.ok_bind] at h
      obtain ⟨d, -, h⟩ := Fallible.bind_eq_ok.mp h
      cases h
      dsimp only
      rw [toInt_ofInt_of_fits hfits]
      omega
    · cases h
      dsimp only
      omega

/-- No machine integer of days makes up for months that are wrapped. -/
theorem not_leadsTo_of_wrapped {a b : Civil} (hfits : ¬Fits (b.index - a.index)) {m d : Int64}
    (hm : -1 ≤ m.toInt - (machineMonths a b).toInt ∧ m.toInt - (machineMonths a b).toInt ≤ 1) :
    ¬LeadsTo a b m.toInt d.toInt := by
  intro hleads
  obtain ⟨hrange, hdvd⟩ := (@toInt_ofInt_eq_iff (b.index - a.index) (machineMonths a b).toInt).mp rfl
  have hne : (machineMonths a b).toInt ≠ b.index - a.index := fun h => hfits (h ▸ hrange)
  have hd := fits_toInt d
  have h1 := monthLength_le (a.index + m.toInt)
  have h2 := b.day_le_monthLength
  have h3 := monthLength_le b.index
  rw [LeadsTo, Civil.addMonths, Civil.dayNumber_inMonth, Civil.dayNumber_eq] at hleads
  unfold Fits at hd
  rcases Int.le_total (a.index + m.toInt) b.index with hle | hle
  · have hfar := monthStart_sub_ge hle
    omega
  · have hfar := monthStart_sub_ge hle
    omega

/-- The difference in months and days is right just where it is counted right. -/
theorem calendarDifference_iff (hD : N.LawfulDates) {build : Build} {a b : Civil} (ha : Fits a.year) (hb : Fits b.year) :
    (∃ p, calendarDifference N build (ymd a) (ymd b) = .ok p ∧ LeadsTo a b p.1.toInt p.2.toInt) ↔
      DifferenceCounted build a b := by
  simp only [calendarDifference_eq_ok ha hb]
  constructor
  · rintro ⟨p, ⟨hdebug, hp⟩, hleads⟩
    have hfits : Fits (b.index - a.index) := by
      by_contra hnot
      exact not_leadsTo_of_wrapped hnot (months_of_giveBackMonth hp) hleads
    refine ⟨⟨hfits, fun h => (hdebug h).2⟩, (giveBackMonth_iff hD ha hb hfits fun h => ?_).mp ⟨p, hp, hleads⟩⟩
    obtain ⟨-, -, -, ha12, hai, -⟩ := hdebug h
    exact ⟨ha12, hai⟩
  · rintro ⟨⟨hfits, hdebug⟩, hrest⟩
    obtain ⟨p, hp, hleads⟩ := (giveBackMonth_iff hD ha hb hfits fun h => by
      obtain ⟨-, -, ha12, hai, -⟩ := hdebug h
      exact ⟨ha12, hai⟩).mpr hrest
    exact ⟨p, ⟨fun h => ⟨hfits, hdebug h⟩, hp⟩, hleads⟩

/-! ## Durations -/

/-- The years and the months of a duration are its months. -/
theorem totalMonths_durationOf (m d ns : Int64) :
    (durationOf m d ns).years.toInt * 12 + (durationOf m d ns).months.toInt = m.toInt := by
  change (m / 12).toInt * 12 + (m % 12).toInt = _
  rw [Int64.toInt_div_of_ne_right m 12 (by decide), Int64.toInt_mod]
  exact Int.tdiv_mul_add_tmod _ _

/-- The difference of two dates is their difference in months and days. -/
theorem durationBetween_dates (hT : N.LawfulTimes) (Z : ZoneLib ch) {build : Build} {l r : TemporalValue ch} (hl : IsDate l)
    (hr : IsDate r) {a b : Ymd} (ha : temporalYmd N l = some a) (hb : temporalYmd N r = some b) :
    durationBetween N Z build l r = (do
      let p ← calendarDifference N build a b
      return durationOf p.1 p.2 0) := by
  obtain ⟨midnight, hmidnight, hh, hm, hs, hn⟩ :=
    hT.exists_time (h := 0) (m := 0) (s := 0) (n := 0) (by decide) (by decide) (by decide) (by decide)
  have hok : hmsNano ch 0 0 0 0 = .ok midnight := by
    rw [hmsNano, hmidnight]
    rfl
  have hzero : timeToNs N.toCalendar midnight = 0 := by
    rw [timeToNs, hh, hm, hs, hn]
    rfl
  have hint : ∀ build' : Build, build'.int 0 = .ok 0 := fun build' => int_of_fits (by decide)
  have hclock : clockNs N build midnight none false = .ok 0 := by
    change (do
      let scaled ← build.int 0
      build.int (timeToNs N.toCalendar midnight - scaled.toInt)) = _
    rw [hint, Fallible.ok_bind, hzero]
    exact hint build
  have hborrow : ∀ months rem, borrowDay build months rem 0 = .ok (rem, 0) := by
    intro months rem
    unfold borrowDay
    rw [if_neg fun h => absurd h.2 (by decide), if_neg fun h => absurd h.2 (by decide)]
    rfl
  unfold durationBetween
  rw [hok, Fallible.ok_bind, hl.1, hl.2, hr.1, hr.2]
  rw [ha, hb]
  change (calendarDifference N build a b >>= fun p => _) = _
  refine congrArg (calendarDifference N build a b >>= ·) (funext fun p => ?_)
  obtain ⟨months, rem⟩ := p
  change (clockNs N build midnight none false >>= _) = _
  rw [hclock, Fallible.ok_bind]
  change (clockNs N build midnight none false >>= _) = _
  rw [hclock, Fallible.ok_bind]
  change (build.int 0 >>= _) = _
  rw [hint, Fallible.ok_bind]
  rw [hborrow, Fallible.ok_bind]

end ExtendedDatesAux

open ExtendedDatesAux

/-- For dates of any year the difference in days is right just where the calendar library has both dates or their years are
counted alike, and the difference in months and days is right just where it is counted right. -/
theorem extended_dates_iff (hD : N.LawfulDates) (hT : N.LawfulTimes) (Z : ZoneLib ch) (build : Build) {a b : Civil}
    (ha : AcceptedYear a.year) (hb : AcceptedYear b.year) :
    (DaysExact N build a b ↔ ChronoYear a.year ∧ ChronoYear b.year ∨ DaysCounted build a b) ∧
      ∀ l r, IsDate l → IsDate r → temporalYmd N l = some (ymd a) → temporalYmd N r = some (ymd b) →
        ((∃ d, durationBetween N Z build l r = .ok d ∧ LeadsTo a b (d.years.toInt * 12 + d.months.toInt) d.days.toInt) ↔
          DifferenceCounted build a b) := by
  refine ⟨daysExact_iff hD ha hb, ?_⟩
  intro l r hl hr hla hrb
  rw [durationBetween_dates hT Z hl hr hla hrb, ← calendarDifference_iff hD (fits_of_accepted ha) (fits_of_accepted hb)]
  constructor
  · rintro ⟨d, hd, hleads⟩
    obtain ⟨p, hp, hd⟩ := Fallible.bind_eq_ok.mp hd
    cases hd
    rw [totalMonths_durationOf] at hleads
    exact ⟨p, hp, hleads⟩
  · rintro ⟨p, hp, hleads⟩
    refine ⟨_, Fallible.bind_eq_ok.mpr ⟨p, hp, rfl⟩, ?_⟩
    rw [totalMonths_durationOf]
    exact hleads

/-! ## Dates of the year 999999999 -/

/-- A date whose text has a sign and nine digits of a year. -/
def extendedDate (c : Civil) : TemporalValue Proleptic.chrono :=
  ⟨.date, String.ofList (formatExtendedDate (ymd c)), none, none, none, none⟩

/-- No time zone is known. -/
def noZones : ZoneLib Proleptic.chrono := ⟨Empty, fun _ => none, fun z => nomatch z⟩

def lateJanuary : Civil := ⟨999999999, 1, 31, by decide, by decide, by decide, by decide⟩

def earlyMarch : Civil := ⟨999999999, 3, 1, by decide, by decide, by decide, by decide⟩

def lateMarch : Civil := ⟨999999999, 3, 31, by decide, by decide, by decide, by decide⟩

/-- From the end of a month to the end of another one, two months are counted and no days. -/
theorem extended_dates_iff_months :
    DaysExact Proleptic.lib .debug lateJanuary lateMarch ∧
      ∃ d, durationBetween Proleptic.lib noZones .debug (extendedDate lateJanuary) (extendedDate lateMarch) = .ok d ∧
        LeadsTo lateJanuary lateMarch (d.years.toInt * 12 + d.months.toInt) d.days.toInt := by
  obtain ⟨hdays, hmonths⟩ := extended_dates_iff Proleptic.lib_lawfulDates Proleptic.lib_lawfulTimes noZones .debug
    (a := lateJanuary) (b := lateMarch) (by decide) (by decide)
  exact ⟨hdays.mpr (by decide), (hmonths _ _ ⟨rfl, rfl⟩ ⟨rfl, rfl⟩ (by decide) (by decide)).mpr (by decide)⟩

/-- From the end of January to the first of March, one month is counted and minus twenty-seven days. -/
theorem month_given_back :
    ¬∃ d, durationBetween Proleptic.lib noZones .debug (extendedDate lateJanuary) (extendedDate earlyMarch) = .ok d ∧
      LeadsTo lateJanuary earlyMarch (d.years.toInt * 12 + d.months.toInt) d.days.toInt := by
  rintro ⟨d, hd, hleads⟩
  rw [durationBetween_dates Proleptic.lib_lawfulTimes noZones ⟨rfl, rfl⟩ ⟨rfl, rfl⟩ (a := ymd lateJanuary) (b := ymd earlyMarch)
    (by decide) (by decide)] at hd
  obtain ⟨p, hp, hd⟩ := Fallible.bind_eq_ok.mp hd
  cases hd
  rw [totalMonths_durationOf] at hleads
  have hcounted := (calendarDifference_iff Proleptic.lib_lawfulDates (by decide) (by decide)).mp ⟨p, hp, hleads⟩
  revert hcounted
  decide

end PgEddy
