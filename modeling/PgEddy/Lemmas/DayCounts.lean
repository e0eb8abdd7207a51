import PgEddy.Durations
import PgEddy.Lib.Fallible

/-!
# The day count of dates of any year

The day count of a date outside the range of the calendar library is cut towards zero, which is one day too many in most of the
years far before the year zero, and its sums are machine integers.
-/

namespace PgEddy

open Gregorian Signed64

variable {ch : Chrono} {N : NaiveLib ch}

/-! ## Dates and their conditions -/

/-- The fields of a date as the program has them. -/
def ymd (c : Civil) : Ymd := ⟨.ofInt c.year, c.month, c.day⟩

/-- A year that the format of extended dates can have. -/
def AcceptedYear (y : Int) : Prop := -2 ^ 63 < y ∧ y < 2 ^ 63

instance : DecidablePred AcceptedYear := fun y => inferInstanceAs (Decidable (-2 ^ 63 < y ∧ y < 2 ^ 63))

/-- The calendar library has the year. -/
def ChronoYear (y : Int) : Prop := minYear ≤ y ∧ y ≤ maxYear

instance : DecidablePred ChronoYear := fun y => inferInstanceAs (Decidable (minYear ≤ y ∧ y ≤ maxYear))

/-- The year that is counted from March on. -/
def marchYear (c : Civil) : Int := if c.month ≤ 2 then c.year - 1 else c.year

/-- The place of the month in it: January is month thirteen. -/
def marchMonth (c : Civil) : Nat := if c.month ≤ 2 then c.month + 12 else c.month

/-- The days of the years since the year -4716, cut towards zero. -/
def yearDays (c : Civil) : Int := (1461 * (marchYear c + 4716)).tdiv 4

/-- The cut goes up: the year is before the year -4716, and not a multiple of four. -/
def CutsUp (c : Civil) : Prop := marchYear c + 4716 < 0 ∧ ¬4 ∣ marchYear c

instance : DecidablePred CutsUp := fun c => inferInstanceAs (Decidable (marchYear c + 4716 < 0 ∧ ¬4 ∣ marchYear c))

/-- The days since the start of the year. -/
def monthDays (c : Civil) : Int := (306001 * (marchMonth c + 1) / 10000 : Nat) + c.day

/-- The days are counted right: the dates lie in the same year, or their days are machine integers and cut in the same way. A
debug build has to add them too. -/
def DaysCounted (build : Build) (a b : Civil) : Prop :=
  (marchYear a = marchYear b ∨ Fits (yearDays a) ∧ Fits (yearDays b) ∧ (CutsUp a ↔ CutsUp b)) ∧
    Fits (b.dayNumber - a.dayNumber) ∧
    (build = .debug → yearDays a + monthDays a < 2 ^ 63 ∧ yearDays b + monthDays b < 2 ^ 63)

instance (build : Build) (a b : Civil) : Decidable (DaysCounted build a b) := by
  unfold DaysCounted
  infer_instance

/-- The difference in days is what it should be. -/
def DaysExact (N : NaiveLib ch) (build : Build) (a b : Civil) : Prop :=
  ∃ n, extendedTotalDayDiff N build (ymd a) (ymd b) = .ok n ∧ n.toInt = b.dayNumber - a.dayNumber

namespace DayCountsAux

/-! ## The day count -/

theorem int_eq_ok {build : Build} {z : Int} {w : Int64} :
    build.int z = .ok w ↔ (build = .debug → Fits z) ∧ w = .ofInt z := by
  cases build with
  | release =>
    change Except.ok (Int64.ofInt z) = .ok w ↔ _
    rw [Except.ok.injEq]
    exact ⟨fun h => ⟨nofun, h.symm⟩, fun h => h.2.symm⟩
  | debug =>
    by_cases h : Fits z
    · rw [show Build.int .debug z = .ok (.ofInt z) from if_pos h, Except.ok.injEq]
      exact ⟨fun hw => ⟨fun _ => h, hw.symm⟩, fun hw => hw.2.symm⟩
    · rw [show Build.int .debug z = .error .overflow from if_neg h]
      exact iff_of_false nofun fun hw => h (hw.1 rfl)

/-- A wrapped sum is the sum of its wrapped parts. -/
theorem ofInt_toInt_add (x y : Int) : Int64.ofInt ((Int64.ofInt x).toInt + y) = .ofInt (x + y) := by
  rw [Int64.ofInt_add, Int64.ofInt_toInt, Int64.ofInt_add]

/-- The years of a date as the program counts them: wrapped, cut and taken into range. -/
def machineDays (c : Civil) : Int := (saturate ((36525 * (Int64.ofInt (marchYear c + 4716)).toInt).tdiv 100)).toInt

/-- What is added to them. -/
def restDays (c : Civil) : Int := monthDays c + (2 - marchYear c / 100 + marchYear c / 100 / 4) - 1524

/-- A hundredth of a product and a quarter of it. -/
theorem tdiv_hundred (z : Int) : (36525 * z).tdiv 100 = (1461 * z).tdiv 4 := by
  rcases Int.le_total 0 z with h | h
  · rw [Int.tdiv_eq_ediv_of_nonneg (by omega), Int.tdiv_eq_ediv_of_nonneg (by omega)]
    omega
  · have hneg : ∀ k d : Int, (k * z).tdiv d = -((k * -z).tdiv d) := by
      intro k d
      rw [mul_neg, Int.neg_tdiv, neg_neg]
    rw [hneg, hneg 1461, Int.tdiv_eq_ediv_of_nonneg (by omega), Int.tdiv_eq_ediv_of_nonneg (by omega)]
    omega

/-- The years of a date, cut towards zero. -/
theorem yearDays_cases (z : Int) :
    (0 ≤ z ∧ (1461 * z).tdiv 4 = 1461 * z / 4) ∨ (z < 0 ∧ (1461 * z).tdiv 4 = -(-(1461 * z) / 4)) := by
  rcases lt_or_ge z 0 with h | h
  · refine .inr ⟨h, ?_⟩
    rw [← Int.neg_neg (1461 * z), Int.neg_tdiv, Int.tdiv_eq_ediv_of_nonneg (by omega), neg_neg]
  · exact .inl ⟨h, Int.tdiv_eq_ediv_of_nonneg (by omega)⟩

theorem toInt_saturate (z : Int) : (saturate z).toInt = max (-2 ^ 63) (min (2 ^ 63 - 1) z) :=
  toInt_ofInt_of_fits (by unfold Fits; omega)

theorem monthDays_bounds (c : Civil) : 122 ≤ monthDays c - c.day ∧ monthDays c - c.day ≤ 460 ∧ 1 ≤ c.day ∧ c.day ≤ 31 := by
  have h1 := c.one_le_month
  have h2 := c.month_le
  have h3 := c.one_le_day
  have h4 := c.day_le
  have h5 := daysInMonth_le c.year c.month
  unfold monthDays marchMonth
  split <;> omega

/-- The year from March on is a machine integer. -/
theorem marchYear_eq {build : Build} {c : Civil} (hc : AcceptedYear c.year) :
    countedYear build (ymd c) = .ok (.ofInt (marchYear c)) ∧ Fits (marchYear c) := by
  unfold AcceptedYear at hc
  have hyear : (Int64.ofInt c.year).toInt = c.year := toInt_ofInt_of_fits (by unfold Fits; omega)
  have hfits : Fits (marchYear c) := by
    unfold Fits marchYear
    split <;> omega
  refine ⟨?_, hfits⟩
  unfold marchYear at hfits ⊢
  change (if c.month ≤ 2 then build.int ((Int64.ofInt c.year).toInt - 1) else .ok (.ofInt c.year)) = _
  rw [hyear]
  split
  · next h =>
    rw [if_pos h] at hfits
    exact int_eq_ok.mpr ⟨fun _ => hfits, rfl⟩
  · rfl

theorem int_of_fits {build : Build} {z : Int} (h : Fits z) : build.int z = .ok (.ofInt z) := int_eq_ok.mpr ⟨fun _ => h, rfl⟩

/-- The sums of the count, in turn. -/
theorem toJdn_eq {build : Build} {c : Civil} (hc : AcceptedYear c.year) :
    toJdn build (ymd c) = (do
      let shifted ← build.int (marchYear c + 4716)
      let sum ← build.int ((saturate ((36525 * shifted.toInt).tdiv 100)).toInt + (306001 * (marchMonth c + 1) / 10000 : Nat))
      let sum ← build.int (sum.toInt + c.day)
      let sum ← build.int (sum.toInt + (2 - marchYear c / 100 + marchYear c / 100 / 4))
      build.int (sum.toInt - 1524)) := by
  obtain ⟨hyear, hfits⟩ := @marchYear_eq build c hc
  have htoInt := toInt_ofInt_of_fits hfits
  unfold Fits at hfits
  have htwo : Fits (2 - marchYear c / 100) := by
    unfold Fits
    omega
  have hb : Fits (2 - marchYear c / 100 + marchYear c / 100 / 4) := by
    unfold Fits
    omega
  rw [toJdn, hyear, Fallible.ok_bind, htoInt]
  dsimp only
  rw [int_of_fits htwo, Fallible.ok_bind, toInt_ofInt_of_fits htwo, int_of_fits hb, Fallible.ok_bind, toInt_ofInt_of_fits hb]
  rfl

theorem debug_bind {α : Type} {z : Int} {f : Int64 → Exec α} {a : α} :
    (Build.int .debug z >>= f) = .ok a ↔ Fits z ∧ f (.ofInt z) = .ok a := by
  by_cases h : Fits z
  · rw [int_of_fits h]
    exact ⟨fun ha => ⟨h, ha⟩, fun ha => ha.2⟩
  · rw [show Build.int .debug z = .error .overflow from if_neg h]
    exact iff_of_false nofun fun ha => h ha.1

/-- Four terms are added in turn, and a constant is taken off. -/
theorem sums_eq_ok {build : Build} {x y z u : Int} {w : Int64} :
    (do
      let sum ← build.int (x + y)
      let sum ← build.int (sum.toInt + z)
      let sum ← build.int (sum.toInt + u)
      build.int (sum.toInt - 1524)) = .ok w ↔
      (build = .debug → Fits (x + y) ∧ Fits (x + y + z) ∧ Fits (x + y + z + u) ∧ Fits (x + y + z + u - 1524)) ∧
        w = .ofInt (x + y + z + u - 1524) := by
  cases build with
  | release =>
    change Build.int .release ((Int64.ofInt ((Int64.ofInt ((Int64.ofInt (x + y)).toInt + z)).toInt + u)).toInt - 1524) = _ ↔ _
    rw [ofInt_toInt_add, add_assoc (Int64.ofInt (x + y)).toInt, ofInt_toInt_add, ← add_assoc (x + y), int_eq_ok, sub_eq_add_neg,
      ofInt_toInt_add, ← sub_eq_add_neg]
    exact ⟨fun h => ⟨nofun, h.2⟩, fun h => ⟨nofun, h.2⟩⟩
  | debug =>
    simp only [debug_bind, int_eq_ok, true_imp_iff, and_assoc]
    refine and_congr_right fun h1 => ?_
    rw [toInt_ofInt_of_fits h1]
    refine and_congr_right fun h2 => ?_
    rw [toInt_ofInt_of_fits h2]
    refine and_congr_right fun h3 => ?_
    rw [toInt_ofInt_of_fits h3]

theorem toJdn_eq_ok {build : Build} {c : Civil} (hc : AcceptedYear c.year) {w : Int64} :
    toJdn build (ymd c) = .ok w ↔
      (build = .debug → Fits (marchYear c + 4716) ∧ Fits (machineDays c + monthDays c)) ∧
        w = .ofInt (machineDays c + restDays c) := by
  have hmonth := monthDays_bounds c
  have hfits := (@marchYear_eq build c hc).2
  have hdays : monthDays c = (306001 * (marchMonth c + 1) / 10000 : Nat) + c.day := rfl
  have hrest : machineDays c + (306001 * (marchMonth c + 1) / 10000 : Nat) + c.day +
      (2 - marchYear c / 100 + marchYear c / 100 / 4) - 1524 = machineDays c + restDays c := by
    rw [restDays, hdays]
    omega
  have hmachine : Fits (marchYear c + 4716) →
      machineDays c = max (-2 ^ 63) (min (2 ^ 63 - 1) ((1461 * (marchYear c + 4716)).tdiv 4)) := by
    intro h
    rw [machineDays, toInt_saturate, toInt_ofInt_of_fits h, tdiv_hundred]
  have hcases := yearDays_cases (marchYear c + 4716)
  rw [toJdn_eq hc, ← hrest]
  cases build with
  | release =>
    rw [show Build.int .release (marchYear c + 4716) = .ok (.ofInt (marchYear c + 4716)) from rfl, Fallible.ok_bind]
    refine sums_eq_ok.trans (and_congr_left fun _ => iff_of_true nofun nofun)
  | debug =>
    rw [debug_bind, sums_eq_ok, ← and_assoc]
    refine and_congr_left fun _ => ?_
    simp only [true_imp_iff]
    refine and_congr_right fun hshift => ?_
    have hvalue := hmachine hshift
    change Fits (machineDays c + _) ∧ Fits (machineDays c + _ + _) ∧ Fits (machineDays c + _ + _ + _) ∧
      Fits (machineDays c + _ + _ + _ - 1524) ↔ _
    rw [hdays] at hmonth ⊢
    generalize machineDays c = g at *
    generalize (1461 * (marchYear c + 4716)).tdiv 4 = z at *
    generalize ((306001 * (marchMonth c + 1) / 10000 : Nat) : Int) = m at *
    unfold Fits at *
    omega

/-- The days of whole years and of their leap years. -/
theorem yearDays_split (z : Int) : 1461 * z / 4 = 365 * z + z / 4 := by
  rw [show 1461 * z = z + 365 * z * 4 by omega, Int.add_mul_ediv_right _ _ (by decide), add_comm]

theorem centuries_split (z : Int) : z / 100 / 4 = z / 400 := Int.ediv_ediv_of_nonneg (by decide)

/-- The number of a date is the count of its days, cut downwards. -/
theorem dayNumber_eq_count (c : Civil) : c.dayNumber = 1461 * (marchYear c + 4716) / 4 + restDays c - 1721425 := by
  rw [yearDays_split]
  obtain ⟨y, m, d, h1, h2, h3, h4⟩ := c
  unfold Civil.dayNumber daysBeforeYear restDays monthDays
  rw [centuries_split]
  dsimp only
  by_cases hleap : isLeap y = true
  · have hyear := isLeap_iff.mp hleap
    interval_cases m <;> simp [daysBeforeMonth, daysInMonth, marchYear, marchMonth, hleap] <;> omega
  · have hyear := mt isLeap_iff.mpr hleap
    interval_cases m <;> simp [daysBeforeMonth, daysInMonth, marchYear, marchMonth, hleap] <;> omega

/-- The years of a date are counted downwards, one day too far, or not at all. -/
theorem machineDays_cases {c : Civil} (hc : AcceptedYear c.year) :
    (Fits (yearDays c) ∧ machineDays c = yearDays c ∧
        (CutsUp c ∧ yearDays c = 1461 * (marchYear c + 4716) / 4 + 1 ∨
          ¬CutsUp c ∧ yearDays c = 1461 * (marchYear c + 4716) / 4)) ∨
      (¬Fits (yearDays c) ∧ (2 ^ 63 ≤ 1461 * (marchYear c + 4716) / 4 ∧ machineDays c = 2 ^ 63 - 1 ∨
        2 ^ 70 ≤ 1461 * (marchYear c + 4716) / 4 ∧ machineDays c = -2 ^ 63)) ∨
      (¬Fits (yearDays c) ∧ 1461 * (marchYear c + 4716) / 4 ≤ -2 ^ 63 - 2 ∧ machineDays c = -2 ^ 63) := by
  have hfits := (@marchYear_eq .release c hc).2
  have hcases := yearDays_cases (marchYear c + 4716)
  have hmachine : machineDays c =
    max (-2 ^ 63) (min (2 ^ 63 - 1) ((1461 * (Int64.ofInt (marchYear c + 4716)).toInt).tdiv 4)) := by
    rw [machineDays, toInt_saturate, tdiv_hundred]
  have hwrapped : (marchYear c + 4716 < 2 ^ 63 ∧ machineDays c = max (-2 ^ 63) (min (2 ^ 63 - 1) (yearDays c))) ∨
      (2 ^ 63 ≤ marchYear c + 4716 ∧ machineDays c = -2 ^ 63) := by
    unfold Fits at hfits
    rcases lt_or_ge (marchYear c + 4716) (2 ^ 63) with h | h
    · refine .inl ⟨h, ?_⟩
      rw [hmachine, toInt_ofInt_of_fits (by unfold Fits; omega), yearDays]
    · have hneg : (Int64.ofInt (marchYear c + 4716)).toInt = marchYear c + 4716 - 2 ^ 64 :=
        toInt_ofInt_eq_iff.mpr ⟨by unfold Fits; omega, by omega⟩
      refine .inr ⟨h, ?_⟩
      rw [hmachine, hneg]
      have := yearDays_cases (marchYear c + 4716 - 2 ^ 64)
      omega
  have hcut : CutsUp c ↔ marchYear c + 4716 < 0 ∧ ¬(marchYear c + 4716) % 4 = 0 := by
    unfold CutsUp
    omega
  rw [hcut]
  change _ ∧ yearDays c = _ ∨ _ ∧ yearDays c = _ at hcases
  have hsplit := yearDays_split (marchYear c + 4716)
  have hnegated := yearDays_split (-(marchYear c + 4716))
  rw [mul_neg] at hnegated
  unfold Fits
  generalize yearDays c = t at *
  generalize machineDays c = g at *
  generalize marchYear c + 4716 = z at *
  omega

/-- Dates whose difference in days is a machine integer are not too many years apart. -/
theorem yearDays_near {a b : Civil} (h : Fits (b.dayNumber - a.dayNumber)) :
    1461 * (marchYear b + 4716) / 4 - 1461 * (marchYear a + 4716) / 4 < 2 ^ 63 + 2 ^ 62 ∧
      1461 * (marchYear a + 4716) / 4 - 1461 * (marchYear b + 4716) / 4 < 2 ^ 63 + 2 ^ 62 := by
  have ha := monthDays_bounds a
  have hb := monthDays_bounds b
  rw [dayNumber_eq_count a, dayNumber_eq_count b] at h
  unfold Fits restDays at h
  rw [centuries_split, centuries_split] at h
  rw [yearDays_split, yearDays_split] at h ⊢
  omega

theorem days_sub_count (a b : Civil) :
    b.dayNumber - a.dayNumber - (machineDays b + restDays b - (machineDays a + restDays a)) =
      (1461 * (marchYear b + 4716) / 4 - machineDays b) - (1461 * (marchYear a + 4716) / 4 - machineDays a) := by
  rw [dayNumber_eq_count a, dayNumber_eq_count b]
  omega

/-- The years of two dates are counted alike. -/
def CountedAlike (a b : Civil) : Prop :=
  marchYear a = marchYear b ∨ Fits (yearDays a) ∧ Fits (yearDays b) ∧ (CutsUp a ↔ CutsUp b)

/-- The difference of the counts is that of the days then. -/
theorem count_eq_of_alike {a b : Civil} (ha : AcceptedYear a.year) (hb : AcceptedYear b.year) (h : CountedAlike a b) :
    machineDays b + restDays b - (machineDays a + restDays a) = b.dayNumber - a.dayNumber := by
  have hdiff := days_sub_count a b
  rcases h with heq | ⟨hfa, hfb, hcut⟩
  · have hsame : machineDays a = machineDays b := by rw [machineDays, machineDays, heq]
    rw [heq, hsame] at hdiff
    omega
  · rcases machineDays_cases ha with ⟨-, hga, hcutA⟩ | ⟨hnot, -⟩ | ⟨hnot, -⟩
    · rcases machineDays_cases hb with ⟨-, hgb, hcutB⟩ | ⟨hnot, -⟩ | ⟨hnot, -⟩
      · rcases hcutA with ⟨hca, hya⟩ | ⟨hca, hya⟩ <;> rcases hcutB with ⟨hcb, hyb⟩ | ⟨hcb, hyb⟩
        · omega
        · exact absurd (hcut.mp hca) hcb
        · exact absurd (hcut.mpr hcb) hca
        · omega
      · exact absurd hfb hnot
      · exact absurd hfb hnot
    · exact absurd hfa hnot
    · exact absurd hfa hnot

/-- It is that, but for multiples of the number of machine integers, only then. -/
theorem alike_of_dvd {a b : Civil} (ha : AcceptedYear a.year) (hb : AcceptedYear b.year) (h : Fits (b.dayNumber - a.dayNumber))
    (hdvd : (2 ^ 64 : Int) ∣ b.dayNumber - a.dayNumber - (machineDays b + restDays b - (machineDays a + restDays a))) :
    CountedAlike a b := by
  have hnear := yearDays_near h
  have hcasesA := machineDays_cases ha
  have hcasesB := machineDays_cases hb
  have hsplitA := yearDays_split (marchYear a + 4716)
  have hsplitB := yearDays_split (marchYear b + 4716)
  rw [days_sub_count] at hdvd
  generalize 1461 * (marchYear a + 4716) / 4 = fa at *
  generalize 1461 * (marchYear b + 4716) / 4 = fb at *
  rcases hcasesA with ⟨hfa, hga, hcutA⟩ | ⟨hfa, hhighA⟩ | ⟨hfa, hlowA, hga⟩ <;>
    rcases hcasesB with ⟨hfb, hgb, hcutB⟩ | ⟨hfb, hhighB⟩ | ⟨hfb, hlowB, hgb⟩
  · refine .inr ⟨hfa, hfb, ?_⟩
    rcases hcutA with ⟨hca, hya⟩ | ⟨hca, hya⟩ <;> rcases hcutB with ⟨hcb, hyb⟩ | ⟨hcb, hyb⟩
    · exact iff_of_true hca hcb
    · omega
    · omega
    · exact iff_of_false hca hcb
  -- one of the years is out of range, so the counts differ by too little or by too much
  all_goals
    left
    unfold Fits at *
    omega

/-- A debug build can add the days of a date. -/
theorem debug_sums_iff {c : Civil} (hc : AcceptedYear c.year) :
    Fits (marchYear c + 4716) ∧ Fits (machineDays c + monthDays c) ↔ yearDays c + monthDays c < 2 ^ 63 := by
  have hmonth := monthDays_bounds c
  have hfits := (@marchYear_eq .release c hc).2
  have hcases := yearDays_cases (marchYear c + 4716)
  have hmachine : Fits (marchYear c + 4716) → machineDays c = max (-2 ^ 63) (min (2 ^ 63 - 1) (yearDays c)) := by
    intro h
    rw [machineDays, toInt_saturate, toInt_ofInt_of_fits h, tdiv_hundred, yearDays]
  change _ ∧ yearDays c = _ ∨ _ ∧ yearDays c = _ at hcases
  unfold Fits at *
  constructor
  · rintro ⟨h1, h2⟩
    rw [hmachine h1] at h2
    omega
  · intro h
    have h1 : -2 ^ 63 ≤ marchYear c + 4716 ∧ marchYear c + 4716 < 2 ^ 63 := by omega
    refine ⟨h1, ?_⟩
    rw [hmachine h1]
    omega

/-! ## The range of the calendar library -/

theorem toInt_year {c : Civil} (h : Fits c.year) : (ymd c).year.toInt = c.year := toInt_ofInt_of_fits h

theorem fits_of_accepted {y : Int} (h : AcceptedYear y) : Fits y := by
  unfold AcceptedYear at h
  unfold Fits
  omega

theorem chronoDate_eq_some (hD : N.LawfulDates) {c : Civil} (hc : Fits c.year) {d : ch.Date} :
    chronoDate N (ymd c) = some d ↔ N.numDaysFromCe d = c.dayNumber := by
  have hdate : N.fromYmdOpt c.year c.month c.day = some d ↔ N.numDaysFromCe d = c.dayNumber := by
    rw [hD.fromYmdOpt_eq_some, hD.numDaysFromCe_civil]
    constructor
    · rintro ⟨hy, hm, hd⟩
      have heq : hD.civil d = c := by
        obtain ⟨y, m, n, h1, h2, h3, h4⟩ := c
        cases hy
        cases hm
        cases hd
        rfl
      rw [heq]
    · intro h
      have heq := Civil.dayNumber_injective h
      exact ⟨congrArg Civil.year heq, congrArg Civil.month heq, congrArg Civil.day heq⟩
  rw [chronoDate, toInt_year hc]
  split
  · exact hdate
  · next hout =>
    refine iff_of_false nofun fun h => hout ?_
    have hy := (hD.fromYmdOpt_eq_some.mp (hdate.mpr h)).1
    have hmin := hD.minYear_le d
    have hmax := hD.le_maxYear d
    unfold minYear at hmin
    unfold maxYear at hmax
    omega

theorem exists_chronoDate_iff (hD : N.LawfulDates) {c : Civil} (hc : Fits c.year) :
    (∃ d, chronoDate N (ymd c) = some d) ↔ ChronoYear c.year := by
  constructor
  · rintro ⟨d, hd⟩
    have heq := Civil.dayNumber_injective ((hD.numDaysFromCe_civil d).symm.trans ((chronoDate_eq_some hD hc).mp hd))
    rw [← heq]
    exact ⟨hD.minYear_le d, hD.le_maxYear d⟩
  · rintro ⟨hmin, hmax⟩
    have hrange : -2 ^ 31 ≤ c.year ∧ c.year < 2 ^ 31 := by
      unfold minYear at hmin
      unfold maxYear at hmax
      omega
    rw [chronoDate, toInt_year hc, if_pos hrange]
    exact Option.isSome_iff_exists.mp (hD.fromYmdOpt_isSome hmin hmax c.one_le_month c.month_le c.one_le_day c.day_le)

theorem daysBeforeMonth_le (y : Int) : ∀ m, daysBeforeMonth y m ≤ 31 * m
  | 0 => le_rfl
  | m + 1 => by
    have := daysBeforeMonth_le y m
    have := daysInMonth_le y m
    rw [daysBeforeMonth]
    omega

/-- The days between two dates of the calendar library are a machine integer. -/
theorem fits_of_inRange {a b : Civil} (ha : ChronoYear a.year) (hb : ChronoYear b.year) : Fits (b.dayNumber - a.dayNumber) := by
  have hma := daysBeforeMonth_le a.year a.month
  have hmb := daysBeforeMonth_le b.year b.month
  have hda := daysInMonth_le a.year a.month
  have hdb := daysInMonth_le b.year b.month
  have h1 := a.month_le
  have h2 := b.month_le
  have h3 := a.day_le
  have h4 := b.day_le
  unfold ChronoYear minYear maxYear at ha hb
  unfold Fits Civil.dayNumber daysBeforeYear
  omega

/-! ## The difference in days -/

theorem total_eq_of_not_inRange (hD : N.LawfulDates) {build : Build} {a b : Civil} (ha : Fits a.year) (hb : Fits b.year)
    (h : ¬(ChronoYear a.year ∧ ChronoYear b.year)) :
    extendedTotalDayDiff N build (ymd a) (ymd b) = (do
      let jb ← toJdn build (ymd b)
      let ja ← toJdn build (ymd a)
      build.int (jb.toInt - ja.toInt)) := by
  unfold extendedTotalDayDiff
  cases hda : chronoDate N (ymd a) with
  | none => rfl
  | some ad =>
    cases hdb : chronoDate N (ymd b) with
    | none => rfl
    | some bd => exact absurd ⟨(exists_chronoDate_iff hD ha).mp ⟨ad, hda⟩, (exists_chronoDate_iff hD hb).mp ⟨bd, hdb⟩⟩ h

theorem total_of_inRange (hD : N.LawfulDates) {build : Build} {a b : Civil} (ha : Fits a.year) (hb : Fits b.year)
    (hra : ChronoYear a.year) (hrb : ChronoYear b.year) :
    extendedTotalDayDiff N build (ymd a) (ymd b) = .ok (.ofInt (b.dayNumber - a.dayNumber)) := by
  obtain ⟨ad, had⟩ := (exists_chronoDate_iff hD ha).mpr hra
  obtain ⟨bd, hbd⟩ := (exists_chronoDate_iff hD hb).mpr hrb
  rw [extendedTotalDayDiff, had, hbd]
  dsimp only
  rw [(chronoDate_eq_some hD ha).mp had, (chronoDate_eq_some hD hb).mp hbd]

/-- A count that a debug build can add is a machine integer. -/
theorem fits_count {c : Civil} (hc : AcceptedYear c.year) (hsum : yearDays c + monthDays c < 2 ^ 63) :
    Fits (machineDays c + restDays c) := by
  obtain ⟨hshift, h⟩ := (debug_sums_iff hc).mpr hsum
  have hmonth := monthDays_bounds c
  have hfits := (@marchYear_eq .release c hc).2
  have hcases := machineDays_cases hc
  have hsplit := yearDays_split (marchYear c + 4716)
  have hdays := yearDays_cases (marchYear c + 4716)
  change _ ∧ yearDays c = _ ∨ _ ∧ yearDays c = _ at hdays
  unfold restDays
  rw [centuries_split]
  unfold Fits at *
  omega

theorem daysExact_iff (hD : N.LawfulDates) {build : Build} {a b : Civil} (ha : AcceptedYear a.year) (hb : AcceptedYear b.year) :
    DaysExact N build a b ↔ ChronoYear a.year ∧ ChronoYear b.year ∨ DaysCounted build a b := by
  have hfa := fits_of_accepted ha
  have hfb := fits_of_accepted hb
  unfold DaysExact
  by_cases hrange : ChronoYear a.year ∧ ChronoYear b.year
  · refine iff_of_true ⟨_, total_of_inRange hD hfa hfb hrange.1 hrange.2, ?_⟩ (.inl hrange)
    exact toInt_ofInt_of_fits (fits_of_inRange hrange.1 hrange.2)
  · rw [total_eq_of_not_inRange hD hfa hfb hrange, or_iff_right hrange]
    simp only [Fallible.bind_eq_ok, toJdn_eq_ok ha, toJdn_eq_ok hb, int_eq_ok, debug_sums_iff ha, debug_sums_iff hb]
    have hmod : ∀ z : Int, (2 ^ 64 : Int) ∣ (Int64.ofInt z).toInt - z := fun z => (toInt_ofInt_eq_iff.mp rfl).2
    have hmodA := hmod (machineDays a + restDays a)
    have hmodB := hmod (machineDays b + restDays b)
    constructor
    · rintro ⟨n, ⟨jb, ⟨hsumB, rfl⟩, ja, ⟨hsumA, rfl⟩, hdiff, rfl⟩, hn⟩
      obtain ⟨hfits, hdvd⟩ := toInt_ofInt_eq_iff.mp hn
      refine ⟨alike_of_dvd ha hb hfits ?_, hfits, fun h => ⟨hsumA h, hsumB h⟩⟩
      omega
    · rintro ⟨halike, hfits, hsums⟩
      have heq := count_eq_of_alike ha hb halike
      refine ⟨_, ⟨_, ⟨fun h => (hsums h).2, rfl⟩, _, ⟨fun h => (hsums h).1, rfl⟩, fun h => ?_, rfl⟩, ?_⟩
      · rwa [toInt_ofInt_of_fits (fits_count ha (hsums h).1), toInt_ofInt_of_fits (fits_count hb (hsums h).2), heq]
      · refine toInt_ofInt_eq_iff.mpr ⟨hfits, ?_⟩
        omega

end DayCountsAux

end PgEddy
