import Mathlib

/-!
# The proleptic Gregorian calendar

Months are numbered through all years by one integer, their index, and days by another, their number: the first of January of the
year one is day one. A date is a month and a day of it, and the order of dates is the order of their numbers.
-/

namespace Gregorian

/-! ## Months and years -/

def isLeap (y : Int) : Bool := (y % 4 = 0 && y % 100 ≠ 0) || y % 400 = 0

/-- The days of a month. There is no other month than the twelve. -/
def daysInMonth (y : Int) : Nat → Nat
  | 1 | 3 | 5 | 7 | 8 | 10 | 12 => 31
  | 4 | 6 | 9 | 11 => 30
  | 2 => if isLeap y then 29 else 28
  | _ => 0

/-- The number of the last day before a year. -/
def daysBeforeYear (y : Int) : Int := 365 * (y - 1) + (y - 1) / 4 - (y - 1) / 100 + (y - 1) / 400

/-- The days of a year before a month. -/
def daysBeforeMonth (y : Int) : Nat → Nat
  | 0 => 0
  | m + 1 => daysBeforeMonth y m + daysInMonth y m

theorem daysInMonth_le (y : Int) (m : Nat) : daysInMonth y m ≤ 31 := by
  unfold daysInMonth
  repeat' split
  all_goals omega

theorem le_daysInMonth (y : Int) {m : Nat} (h1 : 1 ≤ m) (h2 : m ≤ 12) : 28 ≤ daysInMonth y m := by
  interval_cases m <;> simp only [daysInMonth] <;> repeat' split
  all_goals omega

/-- The length of a year in days, from its months. -/
theorem daysBeforeMonth_thirteen (y : Int) : (daysBeforeMonth y 13 : Int) = if isLeap y then 366 else 365 := by
  simp only [daysBeforeMonth, daysInMonth]
  split <;> rfl

theorem isLeap_iff {y : Int} : isLeap y = true ↔ (y % 4 = 0 ∧ y % 100 ≠ 0) ∨ y % 400 = 0 := by simp [isLeap]

/-- The years follow each other without a gap. -/
theorem daysBeforeYear_succ (y : Int) : daysBeforeYear (y + 1) = daysBeforeYear y + daysBeforeMonth y 13 := by
  rw [daysBeforeMonth_thirteen, daysBeforeYear, daysBeforeYear]
  split
  · next h =>
    have := isLeap_iff.mp h
    omega
  · next h =>
    have := mt isLeap_iff.mpr h
    omega

/-! ## The index of a month -/

/-- The year of a month. -/
def yearOf (k : Int) : Int := k / 12

/-- The place of a month in its year, from one on. -/
def monthOf (k : Int) : Nat := (k % 12).toNat + 1

/-- The index of a month. -/
def monthIndex (y : Int) (m : Nat) : Int := y * 12 + (m - 1)

/-- The days of a month. -/
def monthLength (k : Int) : Nat := daysInMonth (yearOf k) (monthOf k)

/-- The number of the last day before a month. -/
def monthStart (k : Int) : Int := daysBeforeYear (yearOf k) + daysBeforeMonth (yearOf k) (monthOf k)

variable {k k' y : Int} {m : Nat}

theorem one_le_monthOf (k : Int) : 1 ≤ monthOf k := Nat.le_add_left _ _

theorem monthOf_le (k : Int) : monthOf k ≤ 12 := by
  unfold monthOf
  omega

theorem yearOf_monthIndex (h1 : 1 ≤ m) (h2 : m ≤ 12) : yearOf (monthIndex y m) = y := by
  unfold yearOf monthIndex
  omega

theorem monthOf_monthIndex (h1 : 1 ≤ m) (h2 : m ≤ 12) : monthOf (monthIndex y m) = m := by
  unfold monthOf monthIndex
  omega

theorem monthIndex_yearOf (k : Int) : monthIndex (yearOf k) (monthOf k) = k := by
  unfold monthIndex yearOf monthOf
  omega

theorem le_monthLength (k : Int) : 28 ≤ monthLength k := le_daysInMonth _ (one_le_monthOf k) (monthOf_le k)

theorem monthLength_le (k : Int) : monthLength k ≤ 31 := daysInMonth_le _ _

/-- The months follow each other without a gap. -/
theorem monthStart_succ (k : Int) : monthStart (k + 1) = monthStart k + monthLength k := by
  unfold monthStart monthLength
  by_cases h : monthOf k = 12
  · have hyear : yearOf (k + 1) = yearOf k + 1 := by
      unfold monthOf at h
      unfold yearOf
      omega
    have hmonth : monthOf (k + 1) = 1 := by
      unfold monthOf at h ⊢
      omega
    have hlast : (daysBeforeMonth (yearOf k) 13 : Int) = daysBeforeMonth (yearOf k) 12 + daysInMonth (yearOf k) 12 := by
      rw [daysBeforeMonth]
      push_cast
      rfl
    have hfirst : (daysBeforeMonth (yearOf k + 1) 1 : Int) = 0 := rfl
    rw [hyear, hmonth, h, daysBeforeYear_succ, hlast, hfirst]
    omega
  · have hle := monthOf_le k
    have hyear : yearOf (k + 1) = yearOf k := by
      unfold monthOf at h hle
      unfold yearOf
      omega
    have hmonth : monthOf (k + 1) = monthOf k + 1 := by
      unfold monthOf at h hle ⊢
      omega
    rw [hyear, hmonth, daysBeforeMonth]
    push_cast
    omega

theorem monthStart_strictMono : StrictMono monthStart := by
  refine strictMono_int_of_lt_succ fun k => ?_
  have := le_monthLength k
  rw [monthStart_succ]
  omega

/-- A month ends before a later one starts. -/
theorem monthStart_add_length_le (h : k < k') : monthStart k + monthLength k ≤ monthStart k' := by
  rw [← monthStart_succ]
  exact monthStart_strictMono.monotone h

/-! ## Dates -/

/-- A date of the calendar. -/
structure Civil where
  year : Int
  month : Nat
  day : Nat
  one_le_month : 1 ≤ month
  month_le : month ≤ 12
  one_le_day : 1 ≤ day
  day_le : day ≤ daysInMonth year month
  deriving DecidableEq

namespace Civil

variable {a b : Civil}

/-- The index of the month of a date. -/
def index (c : Civil) : Int := monthIndex c.year c.month

/-- The number of a date. -/
def dayNumber (c : Civil) : Int := daysBeforeYear c.year + daysBeforeMonth c.year c.month + c.day

@[simp] theorem yearOf_index (c : Civil) : yearOf c.index = c.year := yearOf_monthIndex c.one_le_month c.month_le

@[simp] theorem monthOf_index (c : Civil) : monthOf c.index = c.month := monthOf_monthIndex c.one_le_month c.month_le

theorem monthLength_index (c : Civil) : monthLength c.index = daysInMonth c.year c.month := by
  rw [monthLength, yearOf_index, monthOf_index]

theorem day_le_monthLength (c : Civil) : c.day ≤ monthLength c.index := c.monthLength_index ▸ c.day_le

theorem dayNumber_eq (c : Civil) : c.dayNumber = monthStart c.index + c.day := by
  rw [dayNumber, monthStart, yearOf_index, monthOf_index]

theorem ext_index (hindex : a.index = b.index) (hday : a.day = b.day) : a = b := by
  have hyear : a.year = b.year := by rw [← yearOf_index a, hindex, yearOf_index]
  have hmonth : a.month = b.month := by rw [← monthOf_index a, hindex, monthOf_index]
  cases a
  cases b
  cases hyear
  cases hmonth
  cases hday
  rfl

/-- A date in an earlier month is earlier. -/
theorem dayNumber_lt_of_index_lt (h : a.index < b.index) : a.dayNumber < b.dayNumber := by
  have hle := monthStart_add_length_le h
  have ha := a.day_le_monthLength
  have hb := b.one_le_day
  rw [dayNumber_eq, dayNumber_eq]
  omega

/-- The order of the numbers is the order of the dates. -/
theorem dayNumber_lt_iff : a.dayNumber < b.dayNumber ↔ a.index < b.index ∨ a.index = b.index ∧ a.day < b.day := by
  rcases lt_trichotomy a.index b.index with h | h | h
  · exact iff_of_true (dayNumber_lt_of_index_lt h) (.inl h)
  · rw [dayNumber_eq, dayNumber_eq, h]
    omega
  · have := dayNumber_lt_of_index_lt h
    omega

theorem dayNumber_le_iff : a.dayNumber ≤ b.dayNumber ↔ a.index < b.index ∨ a.index = b.index ∧ a.day ≤ b.day := by
  rw [← not_lt, dayNumber_lt_iff]
  omega

theorem dayNumber_injective : Function.Injective dayNumber := by
  intro a b h
  have hab : a.dayNumber ≤ b.dayNumber := le_of_eq h
  have hba : b.dayNumber ≤ a.dayNumber := le_of_eq h.symm
  rw [dayNumber_le_iff] at hab hba
  exact ext_index (by omega) (by omega)

/-- The date of a month and a day of it. -/
def ofIndex (k : Int) (d : Nat) (h1 : 1 ≤ d) (h2 : d ≤ monthLength k) : Civil :=
  ⟨yearOf k, monthOf k, d, one_le_monthOf k, monthOf_le k, h1, h2⟩

@[simp] theorem index_ofIndex {d : Nat} (h1 : 1 ≤ d) (h2 : d ≤ monthLength k) : (ofIndex k d h1 h2).index = k :=
  monthIndex_yearOf k

@[simp] theorem day_ofIndex {d : Nat} (h1 : 1 ≤ d) (h2 : d ≤ monthLength k) : (ofIndex k d h1 h2).day = d := rfl

end Civil

/-! ## From numbers to dates -/

/-- The year of a day: the mean length of a year tells it, or the year before it. -/
def yearAt (n : Int) : Int :=
  let y := (n - 1) * 400 / 146097 + 1
  if daysBeforeYear (y + 1) < n then y + 1 else y

theorem yearAt_spec (n : Int) : daysBeforeYear (yearAt n) < n ∧ n ≤ daysBeforeYear (yearAt n + 1) := by
  unfold yearAt
  dsimp only
  split
  · next h =>
    refine ⟨h, ?_⟩
    unfold daysBeforeYear at h ⊢
    omega
  · next h =>
    refine ⟨?_, not_lt.mp h⟩
    unfold daysBeforeYear
    omega

theorem monthStart_january (y : Int) : monthStart (12 * y) = daysBeforeYear y := by
  have hyear : yearOf (12 * y) = y := by
    unfold yearOf
    omega
  have hmonth : monthOf (12 * y) = 1 := by
    unfold monthOf
    omega
  have hfirst : (daysBeforeMonth y 1 : Int) = 0 := rfl
  rw [monthStart, hyear, hmonth, hfirst, add_zero]

/-- The month of a day, looked for from a month on. -/
def monthFrom (n : Int) : Nat → Int → Int
  | 0, k => k
  | fuel + 1, k => if n ≤ monthStart (k + 1) then k else monthFrom n fuel (k + 1)

theorem monthFrom_spec {n : Int} : ∀ {fuel : Nat} {k : Int}, monthStart k < n → n ≤ monthStart (k + fuel + 1) →
    monthStart (monthFrom n fuel k) < n ∧ n ≤ monthStart (monthFrom n fuel k + 1)
  | 0, k, h1, h2 => by
    rw [monthFrom]
    exact ⟨h1, by simpa using h2⟩
  | fuel + 1, k, h1, h2 => by
    rw [monthFrom]
    split
    · next h => exact ⟨h1, h⟩
    · next h =>
      refine monthFrom_spec (not_le.mp h) ?_
      have hk : k + 1 + fuel + 1 = k + (fuel + 1 : Nat) + 1 := by
        push_cast
        omega
      rwa [hk]

/-- The month of a day. -/
def monthAt (n : Int) : Int := monthFrom n 11 (12 * yearAt n)

theorem monthAt_spec (n : Int) : monthStart (monthAt n) < n ∧ n ≤ monthStart (monthAt n + 1) := by
  obtain ⟨h1, h2⟩ := yearAt_spec n
  rw [← monthStart_january] at h1 h2
  have hnext : 12 * (yearAt n + 1) = 12 * yearAt n + (11 : Nat) + 1 := by omega
  rw [hnext] at h2
  exact monthFrom_spec h1 h2

namespace Civil

/-- The date of a number. -/
def ofDayNumber (n : Int) : Civil :=
  ofIndex (monthAt n) (n - monthStart (monthAt n)).toNat (by have := monthAt_spec n; omega)
    (by have := monthAt_spec n; rw [monthStart_succ] at this; omega)

@[simp] theorem dayNumber_ofDayNumber (n : Int) : (ofDayNumber n).dayNumber = n := by
  have := (monthAt_spec n).1
  rw [dayNumber_eq, ofDayNumber, index_ofIndex, day_ofIndex]
  omega

@[simp] theorem ofDayNumber_dayNumber (c : Civil) : ofDayNumber c.dayNumber = c :=
  dayNumber_injective (dayNumber_ofDayNumber _)

@[simp] theorem index_ofDayNumber (n : Int) : (ofDayNumber n).index = monthAt n := index_ofIndex _ _

end Civil

/-! ## The months and years before a day -/

variable {n n' : Int}

/-- The month of a day is the last one that starts before it. -/
theorem monthStart_lt_iff : monthStart k < n ↔ k ≤ monthAt n := by
  obtain ⟨h1, h2⟩ := monthAt_spec n
  constructor
  · intro h
    by_contra hlt
    have := monthStart_strictMono.monotone (show monthAt n + 1 ≤ k by omega)
    omega
  · intro h
    have := monthStart_strictMono.monotone h
    omega

theorem monthAt_mono : Monotone monthAt := by
  intro n n' h
  have := (monthAt_spec n).1
  exact monthStart_lt_iff.mp (by omega)

@[simp] theorem monthAt_first (k : Int) : monthAt (monthStart k + 1) = k := by
  refine le_antisymm ?_ (monthStart_lt_iff.mp (by omega))
  by_contra h
  have hnext := monthStart_lt_iff.mpr (show k + 1 ≤ monthAt (monthStart k + 1) by omega)
  have := le_monthLength k
  rw [monthStart_succ] at hnext
  omega

/-- The year of a day. -/
def yearOfDay (n : Int) : Int := yearOf (monthAt n)

/-- It is the last one that starts before it. -/
theorem daysBeforeYear_lt_iff : daysBeforeYear y < n ↔ y ≤ yearOfDay n := by
  rw [← monthStart_january, monthStart_lt_iff, yearOfDay, yearOf]
  omega

theorem yearOfDay_mono : Monotone yearOfDay := by
  intro n n' h
  have := monthAt_mono h
  unfold yearOfDay yearOf
  omega

theorem daysBeforeYear_mono : Monotone daysBeforeYear := by
  intro y y' h
  rw [← monthStart_january, ← monthStart_january]
  exact monthStart_strictMono.monotone (by omega)

/-! ## Adding months -/

/-- Each month between two of them has at least twenty-eight days. -/
theorem monthStart_sub_ge (h : k ≤ k') : 28 * (k' - k) ≤ monthStart k' - monthStart k := by
  induction k', h using Int.le_induction with
  | base => omega
  | succ j hj ih =>
    have := le_monthLength j
    rw [monthStart_succ]
    omega

namespace Civil

/-- The day of a date in another month: the last day of the month if it is shorter. -/
def inMonth (c : Civil) (k : Int) : Civil :=
  ofIndex k (min c.day (monthLength k)) (le_min c.one_le_day (by have := le_monthLength k; omega)) (Nat.min_le_right _ _)

@[simp] theorem index_inMonth (c : Civil) (k : Int) : (c.inMonth k).index = k := index_ofIndex _ _

@[simp] theorem day_inMonth (c : Civil) (k : Int) : (c.inMonth k).day = min c.day (monthLength k) := rfl

@[simp] theorem year_inMonth (c : Civil) (k : Int) : (c.inMonth k).year = yearOf k := rfl

theorem dayNumber_inMonth (c : Civil) (k : Int) : (c.inMonth k).dayNumber = monthStart k + min c.day (monthLength k) := by
  rw [dayNumber_eq, index_inMonth, day_inMonth, Nat.cast_min]

/-- A date some months later, or earlier. -/
def addMonths (c : Civil) (m : Int) : Civil := c.inMonth (c.index + m)

end Civil

/-! ## Weeks -/

/-- The number of the Monday of the week of a day. -/
def mondayOf (n : Int) : Int := n - (n - 1) % 7

/-- The number of the Monday of the first week of a year: the week of the fourth of January. -/
def firstMonday (y : Int) : Int := mondayOf (daysBeforeYear y + 4)

/-- The year that the week of a day belongs to: that of its Thursday. -/
def weekYearOf (n : Int) : Int := yearOfDay (mondayOf n + 3)

theorem mondayOf_mono : Monotone mondayOf := by
  intro n n' h
  unfold mondayOf
  omega

theorem mondayOf_le (n : Int) : mondayOf n ≤ n := by
  unfold mondayOf
  omega

@[simp] theorem mondayOf_mondayOf (n : Int) : mondayOf (mondayOf n) = mondayOf n := by
  unfold mondayOf
  omega

theorem firstMonday_mono : Monotone firstMonday := fun _ _ h => mondayOf_mono (by have := daysBeforeYear_mono h; omega)

theorem weekYearOf_mono : Monotone weekYearOf := fun _ _ h => yearOfDay_mono (by have := mondayOf_mono h; omega)

/-- The week of a day is a whole number of weeks behind the first one of its year. -/
theorem firstMonday_add_weeks (h : daysBeforeYear y < mondayOf n + 3) :
    firstMonday y + 7 * ((mondayOf n - firstMonday y) / 7) = mondayOf n ∧ 0 ≤ (mondayOf n - firstMonday y) / 7 := by
  unfold firstMonday mondayOf at *
  omega

theorem firstMonday_le (n : Int) : firstMonday (weekYearOf n) ≤ n := by
  obtain ⟨hweeks, hpos⟩ := firstMonday_add_weeks (daysBeforeYear_lt_iff.mpr (le_refl (weekYearOf n)))
  have := mondayOf_le n
  omega

/-- The first week of a year belongs to it. -/
@[simp] theorem weekYearOf_firstMonday (y : Int) : weekYearOf (firstMonday y) = y := by
  have hsame : mondayOf (firstMonday y) = firstMonday y := mondayOf_mondayOf _
  have hnext : daysBeforeYear y + 365 ≤ daysBeforeYear (y + 1) := by
    rw [daysBeforeYear_succ, daysBeforeMonth_thirteen]
    split <;> omega
  have hnear : daysBeforeYear y - 2 ≤ firstMonday y ∧ firstMonday y ≤ daysBeforeYear y + 4 := by
    unfold firstMonday mondayOf
    omega
  rw [weekYearOf, hsame]
  refine le_antisymm ?_ (daysBeforeYear_lt_iff.mp (by omega))
  by_contra h
  have := daysBeforeYear_lt_iff.mpr (show y + 1 ≤ yearOfDay (firstMonday y + 3) by omega)
  omega

end Gregorian
