import PgEddy.Lemmas.DayCounts
import PgEddy.Lib.DigitOrder

/-!
# The order of temporal values

Values with an offset are compared by the nanoseconds of their instants, which puts a leap second into the second after it. All
others are compared by their texts. These are in the order of time where they are plain (two digits for every part, the year as it
is printed), have one text for each moment, and have years whose texts are in order.
-/

namespace PgEddy

open Gregorian Signed64 Text DigitOrder

variable {ch : Chrono} {N : NaiveLib ch}

/-! ## What a value denotes -/

/-- A date, a time of day as its second and the nanoseconds of it, or both, and the offset of the clock. -/
structure Moment where
  date : Option Civil
  time : Option (Nat × Nat)
  offset : Option Int32

namespace Moment

/-- The second of the day by the clock of UTC, which may lie on another day. -/
def utcSecond (m : Moment) : Int := (m.time.elim 0 Prod.fst : Nat) - m.offset.elim 0 Int32.toInt

/-- The day, the second and the nanoseconds of the moment. A time without a date is a time of day. -/
def stamp (m : Moment) : Stamp :=
  ⟨m.date.elim 0 fun c => c.dayNumber + m.utcSecond / 86400, (m.utcSecond % 86400).toNat, m.time.elim 0 Prod.snd⟩

end Moment

/-- What a value denotes. -/
structure Denotes (N : NaiveLib ch) (tv : TemporalValue ch) (m : Moment) : Prop where
  date : ∀ c, m.date = some c → AcceptedYear c.year ∧ temporalYmd N tv = some (ymd c)
  time : m.time = tv.time.map fun t => (N.secondsOfDay t, N.nanosecond t)
  offset : m.offset = tv.offsetSecs
  kind : match tv.kind with
    | .date => m.date.isSome ∧ tv.time = none ∧ tv.offsetSecs = none
    | .localTime => m.date = none ∧ tv.time.isSome ∧ tv.offsetSecs = none
    | .time => tv.date = none ∧ tv.time.isSome ∧ tv.offsetSecs.isSome
    | .localDateTime => m.date.isSome ∧ tv.time.isSome ∧ tv.offsetSecs = none
    | .dateTime => m.date.isSome ∧ tv.date.isSome ∧ tv.time.isSome ∧ tv.offsetSecs.isSome

namespace Stamp

/-- The first of two moments. -/
def Before (a b : Stamp) : Prop :=
  a.day < b.day ∨ a.day = b.day ∧ (a.second < b.second ∨ a.second = b.second ∧ a.nanos < b.nanos)

instance (a b : Stamp) : Decidable (Before a b) :=
  inferInstanceAs (Decidable (_ ∨ _ ∧ (_ ∨ _ ∧ _)))

/-- The order of time. -/
def order (a b : Stamp) : Ordering := if Before a b then .lt else if Before b a then .gt else .eq

/-- The second is a leap second that goes on for so long that its nanoseconds reach those of the next second. -/
def Overlaps (a b : Stamp) : Prop :=
  a.day * 86400 + a.second + 1 = b.day * 86400 + b.second ∧ b.nanos + 1000000000 ≤ a.nanos

/-- A leap second at the end of a day of UTC. -/
def EndsDay (a : Stamp) : Prop := a.second = 86399 ∧ 1000000000 ≤ a.nanos

end Stamp

/-! ## Plain texts -/

/-- The digits of a year: four at least, and nine for a year that the calendar library has not. -/
def yearDigits (y : Int) : List Char := padNumber (if ChronoYear y then 4 else 9) y.natAbs

/-- The year as it is printed. -/
def yearNotation (y : Int) : List Char :=
  if 0 ≤ y ∧ y ≤ 9999 then padNumber 4 y.natAbs else (if y < 0 then '-' else '+') :: yearDigits y

def dateNotation (c : Civil) : List Char := yearNotation c.year ++ '-' :: (padNumber 2 c.month ++ '-' :: padNumber 2 c.day)

/-- The seconds and the fraction behind the minutes of a time. A leap second is the sixtieth, and its nanoseconds have ten
digits. -/
inductive TimeTail (s nanos : Nat) : List Char → Prop
  | minutes : s = 0 → nanos = 0 → TimeTail s nanos []
  | seconds : nanos = 0 → TimeTail s nanos (':' :: padNumber 2 s)
  | fraction (digits : List Char) : (∀ c ∈ digits, c.isDigit = true) →
    fractionValue (if nanos < 1000000000 then 9 else 10) digits = nanos →
    TimeTail s nanos (':' :: (padNumber 2 (s + nanos / 1000000000) ++ '.' :: digits))

/-- A text of a time of day with two digits for each part. A time of a date out of range is printed without a fraction. -/
def TimeNotation (ranged : Prop) (time : Nat × Nat) (text : List Char) : Prop :=
  ∃ h m s tail, h < 24 ∧ m < 60 ∧ s < 60 ∧ time.1 = h * 3600 + m * 60 + s ∧ NanosFit s time.2 ∧
    text = padNumber 2 h ++ ':' :: (padNumber 2 m ++ tail) ∧
    (ranged ∧ TimeTail s time.2 tail ∨ ¬ranged ∧ tail = ':' :: padNumber 2 (s + time.2 / 1000000000))

/-- A text of a moment with the year as it is printed and two digits for each other part. -/
def PlainText (text : List Char) (m : Moment) : Prop :=
  match m.date, m.time with
  | some c, none => text = dateNotation c
  | none, some time => TimeNotation True time text
  | some c, some time => ∃ rest, TimeNotation (ChronoYear c.year) time rest ∧ text = dateNotation c ++ 'T' :: rest
  | none, none => False

/-! ## The conditions -/

/-- The year's text comes first: a plus is before a minus, a minus is before the digits, and texts with the same sign are in the
order of their digits. -/
def YearTextFirst (y y' : Int) : Prop :=
  9999 < y ∧ y' ≤ 9999 ∨ y < 0 ∧ 0 ≤ y' ∧ y' ≤ 9999 ∨ 0 ≤ y ∧ y ≤ 9999 ∧ 0 ≤ y' ∧ y' ≤ 9999 ∧ y < y' ∨
    (9999 < y ∧ 9999 < y' ∨ y < 0 ∧ y' < 0) ∧ yearDigits y ++ ['-'] < yearDigits y' ++ ['-']

/-- The years are the same, or their texts are in their order. -/
def YearsOrdered (m m' : Moment) : Prop :=
  ∀ c c', m.date = some c → m'.date = some c' → c.year = c'.year ∨ (c.year < c'.year ↔ YearTextFirst c.year c'.year)

/-- The texts differ first in a character, or by the end of the one, as the order says. -/
def FirstDifference (s t : List Char) : Ordering → Prop
  | .eq => s = t
  | .lt => ∃ same, (∃ d y, s = same ∧ t = same ++ d :: y) ∨ ∃ c x d y, s = same ++ c :: x ∧ t = same ++ d :: y ∧ c < d
  | .gt => ∃ same, (∃ d y, t = same ∧ s = same ++ d :: y) ∨ ∃ c x d y, t = same ++ c :: x ∧ s = same ++ d :: y ∧ c < d

/-- Plain texts stand for one moment each and each moment has one of them, and the texts of the years are in order. Texts that are
not plain happen to differ first in the right direction. -/
def TextsRight (a b : List Char) (m m' : Moment) : Prop :=
  (PlainText a m ∧ PlainText b m' → (m.stamp = m'.stamp ↔ a = b) ∧ YearsOrdered m m') ∧
    (¬(PlainText a m ∧ PlainText b m') → FirstDifference a b (m.stamp.order m'.stamp))

/-- What has to hold of two values: no leap second runs into the time of the other one, or the texts are right. -/
def OrderRight (a b : TemporalValue ch) (m m' : Moment) : Prop :=
  match a.kind with
  | .dateTime => ¬m.stamp.Overlaps m'.stamp ∧ ¬m'.stamp.Overlaps m.stamp
  | .time => ¬m.stamp.Overlaps m'.stamp ∧ ¬m'.stamp.Overlaps m.stamp ∧
    (m.stamp.EndsDay → m'.stamp.EndsDay ∨ m'.stamp.second = 0 ∧ m'.stamp.nanos + 1000000000 < m.stamp.nanos) ∧
    (m'.stamp.EndsDay → m.stamp.EndsDay ∨ m.stamp.second = 0 ∧ m.stamp.nanos + 1000000000 < m'.stamp.nanos)
  | _ => TextsRight a.iso.toList b.iso.toList m m'

namespace TemporalOrderAux

/-! ## Orders -/

theorem compare_eq_order_iff {α : Type} [LinearOrder α] {x y : α} {s s' : Stamp} :
    compare x y = s.order s' ↔ (x < y ↔ s.Before s') ∧ (y < x ↔ s'.Before s) := by
  have hasymm : s.Before s' → ¬s'.Before s := by
    unfold Stamp.Before
    omega
  unfold Stamp.order
  rcases lt_trichotomy x y with h | h | h
  · rw [compare_lt_iff_lt.mpr h]
    have := lt_asymm h
    by_cases hb : s.Before s'
    · simp [h, hb, this, hasymm hb]
    · by_cases hb' : s'.Before s <;> simp [h, hb, hb', this]
  · rw [compare_eq_iff_eq.mpr h]
    subst h
    by_cases hb : s.Before s'
    · simp [hb]
    · by_cases hb' : s'.Before s <;> simp [hb, hb']
  · rw [compare_gt_iff_gt.mpr h]
    have := lt_asymm h
    by_cases hb : s.Before s'
    · simp [h, hb, this, hasymm hb]
    · by_cases hb' : s'.Before s <;> simp [h, hb, hb', this]

theorem compare_eq_iff_firstDifference {s t : String} {o : Ordering} : compare s t = o ↔ FirstDifference s.toList t.toList o := by
  cases o with
  | lt => rw [compare_lt_iff_lt, String.lt_iff_toList_lt, lt_iff_firstDifference, FirstDifference]
  | eq => rw [compare_eq_iff_eq, FirstDifference, String.toList_inj]
  | gt => rw [compare_gt_iff_gt, String.lt_iff_toList_lt, lt_iff_firstDifference, FirstDifference]

/-! ## Values with an offset -/

/-- The nanoseconds of a moment. -/
def nanosOf (s : Stamp) : Int := (s.day * 86400 + s.second) * 1000000000 + s.nanos

/-- The nanoseconds of two instants are in their order, except for a leap second and the start of the next second. -/
theorem nanosOf_order_iff {s s' : Stamp} (hs : s.second < 86400) (hs' : s'.second < 86400) (hn : s.nanos < 2000000000)
    (hn' : s'.nanos < 2000000000) :
    compare (nanosOf s) (nanosOf s') = s.order s' ↔ ¬s.Overlaps s' ∧ ¬s'.Overlaps s := by
  rw [compare_eq_order_iff]
  unfold nanosOf Stamp.Before Stamp.Overlaps
  omega

/-- The same of two times of day: the leap second at the end of the day is counted to its start. -/
theorem nanosOf_mod_order_iff {s s' : Stamp} (hd : s.day = 0) (hd' : s'.day = 0) (hs : s.second < 86400) (hs' : s'.second < 86400)
    (hn : s.nanos < 2000000000) (hn' : s'.nanos < 2000000000) :
    compare (nanosOf s % dayNs) (nanosOf s' % dayNs) = s.order s' ↔
      ¬s.Overlaps s' ∧ ¬s'.Overlaps s ∧
        (s.EndsDay → s'.EndsDay ∨ s'.second = 0 ∧ s'.nanos + 1000000000 < s.nanos) ∧
        (s'.EndsDay → s.EndsDay ∨ s.second = 0 ∧ s.nanos + 1000000000 < s'.nanos) := by
  have hmod : ∀ {r : Stamp}, r.day = 0 → r.second < 86400 → r.nanos < 2000000000 →
      (r.second = 86399 ∧ 1000000000 ≤ r.nanos) ∧ nanosOf r % dayNs = r.nanos - 1000000000 ∨
        ¬(r.second = 86399 ∧ 1000000000 ≤ r.nanos) ∧ nanosOf r % dayNs = r.second * 1000000000 + r.nanos := by
    intro r hr hsec hnanos
    unfold nanosOf dayNs
    rw [hr]
    omega
  rw [compare_eq_order_iff]
  unfold Stamp.Before Stamp.Overlaps Stamp.EndsDay
  rw [hd, hd']
  rcases hmod hd hs hn with ⟨he, hx⟩ | ⟨he, hx⟩ <;> rcases hmod hd' hs' hn' with ⟨he', hx'⟩ | ⟨he', hx'⟩ <;> rw [hx, hx'] <;>
    omega

theorem second_lt (m : Moment) : m.stamp.second < 86400 := by
  change (m.utcSecond % 86400).toNat < 86400
  omega

theorem nanos_lt (hT : N.LawfulTimes) {tv : TemporalValue ch} {m : Moment} (h : Denotes N tv m) : m.stamp.nanos < 2000000000 := by
  change m.time.elim 0 Prod.snd < 2000000000
  rw [h.time]
  cases tv.time with
  | none => exact Nat.zero_lt_succ _
  | some t =>
    change N.nanosecond t < 2000000000
    rcases hT.nanos_fit t with hn | ⟨-, hn⟩ <;> omega

/-- The time of a value less its offset, in nanoseconds. -/
theorem utcNs_eq {tv : TemporalValue ch} {m : Moment} (h : Denotes N tv m) {t : ch.Time} {off : Int32} (ht : tv.time = some t)
    (hoff : tv.offsetSecs = some off) :
    utcNs N.toCalendar tv = some (m.utcSecond * 1000000000 + m.stamp.nanos) := by
  have htime := h.time
  have hoffset := h.offset
  rw [ht] at htime
  rw [hoff] at hoffset
  have hsecond : m.utcSecond = (N.secondsOfDay t : Int) - off.toInt := by rw [Moment.utcSecond, htime, hoffset]; rfl
  have hnanos : m.stamp.nanos = N.nanosecond t := by
    change m.time.elim 0 Prod.snd = _
    rw [htime]
    rfl
  rw [utcNs, hoff, ht, hsecond, hnanos]
  unfold timeToNs NaiveLib.secondsOfDay
  refine congrArg some ?_
  push_cast
  omega

/-- The date of a value of the calendar library is the one it denotes. -/
theorem date_eq (hD : N.LawfulDates) {tv : TemporalValue ch} {m : Moment} (h : Denotes N tv m) {c : Civil} (hc : m.date = some c)
    {d : ch.Date} (hd : tv.date = some d) : N.numDaysFromCe d = c.dayNumber := by
  obtain ⟨haccepted, hymd⟩ := h.date c hc
  rw [temporalYmd, hd] at hymd
  have hparts := Option.some.inj hymd
  have hyear : N.year d = c.year := by
    have hint := congrArg (fun x : Ymd => x.year.toInt) hparts
    have hmin := hD.minYear_le d
    have hmax := hD.le_maxYear d
    unfold minYear at hmin
    unfold maxYear at hmax
    unfold AcceptedYear at haccepted
    change (Int64.ofInt (N.year d)).toInt = (Int64.ofInt c.year).toInt at hint
    rwa [toInt_ofInt_of_fits (by unfold Fits; omega), toInt_ofInt_of_fits (by unfold Fits; omega)] at hint
  have hmonth : N.month d = c.month := congrArg Ymd.month hparts
  have hday : N.day d = c.day := congrArg Ymd.day hparts
  rw [hD.numDaysFromCe_eq, hyear, hmonth, hday]
  rfl

theorem temporalCmp_dateTime (hD : N.LawfulDates) {a b : TemporalValue ch} {m m' : Moment} (hka : a.kind = .dateTime)
    (hkb : b.kind = .dateTime) (ha : Denotes N a m) (hb : Denotes N b m') :
    temporalCmp N.toCalendar a b = compare (nanosOf m.stamp) (nanosOf m'.stamp) := by
  have hparts : ∀ {tv : TemporalValue ch} {r : Moment}, tv.kind = .dateTime → Denotes N tv r →
      ∃ d, tv.date = some d ∧ utcNs N.toCalendar tv = some (r.utcSecond * 1000000000 + r.stamp.nanos) ∧
        N.numDaysFromCe d * dayNs + (r.utcSecond * 1000000000 + r.stamp.nanos) = nanosOf r.stamp := by
    intro tv r hk hr
    have hkind := hr.kind
    rw [hk] at hkind
    obtain ⟨hdate, hd, ht, hoff⟩ := hkind
    obtain ⟨c, hc⟩ := Option.isSome_iff_exists.mp hdate
    obtain ⟨d, hd⟩ := Option.isSome_iff_exists.mp hd
    obtain ⟨t, ht⟩ := Option.isSome_iff_exists.mp ht
    obtain ⟨off, hoff⟩ := Option.isSome_iff_exists.mp hoff
    refine ⟨d, hd, utcNs_eq hr ht hoff, ?_⟩
    have hday : r.stamp.day = c.dayNumber + r.utcSecond / 86400 := by rw [Moment.stamp, hc]; rfl
    have hsecond : (r.stamp.second : Int) = r.utcSecond % 86400 := Int.toNat_of_nonneg (Int.emod_nonneg _ (by decide))
    rw [nanosOf, hday, hsecond, date_eq hD hr hc hd, dayNs]
    omega
  obtain ⟨d, hd, hutc, hns⟩ := hparts hka ha
  obtain ⟨d', hd', hutc', hns'⟩ := hparts hkb hb
  unfold temporalCmp
  rw [hutc, hutc', hd, hd']
  change compare _ _ = _
  rw [hns, hns']

theorem temporalCmp_time {a b : TemporalValue ch} {m m' : Moment} (hka : a.kind = .time) (hkb : b.kind = .time)
    (ha : Denotes N a m) (hb : Denotes N b m') :
    m.stamp.day = 0 ∧ m'.stamp.day = 0 ∧
      temporalCmp N.toCalendar a b = compare (nanosOf m.stamp % dayNs) (nanosOf m'.stamp % dayNs) := by
  have hparts : ∀ {tv : TemporalValue ch} {r : Moment}, tv.kind = .time → Denotes N tv r →
      tv.date = none ∧ r.stamp.day = 0 ∧ utcNs N.toCalendar tv = some (r.utcSecond * 1000000000 + r.stamp.nanos) ∧
        (r.utcSecond * 1000000000 + r.stamp.nanos) % dayNs = nanosOf r.stamp % dayNs := by
    intro tv r hk hr
    have hkind := hr.kind
    rw [hk] at hkind
    obtain ⟨hd, ht, hoff⟩ := hkind
    obtain ⟨t, ht⟩ := Option.isSome_iff_exists.mp ht
    obtain ⟨off, hoff⟩ := Option.isSome_iff_exists.mp hoff
    have hnone : r.date = none := by
      cases hc : r.date with
      | none => rfl
      | some c =>
        have hymd := (hr.date c hc).2
        rw [temporalYmd, hd, hk] at hymd
        nomatch hymd
    have hday : r.stamp.day = 0 := by rw [Moment.stamp, hnone]; rfl
    refine ⟨hd, hday, utcNs_eq hr ht hoff, ?_⟩
    have hsecond : (r.stamp.second : Int) = r.utcSecond % 86400 := Int.toNat_of_nonneg (Int.emod_nonneg _ (by decide))
    rw [nanosOf, hday, hsecond, dayNs]
    omega
  obtain ⟨hd, hday, hutc, hns⟩ := hparts hka ha
  obtain ⟨hd', hday', hutc', hns'⟩ := hparts hkb hb
  refine ⟨hday, hday', ?_⟩
  unfold temporalCmp
  rw [hutc, hutc', hd, hd']
  change compare (_ % dayNs) (_ % dayNs) = _
  rw [hns, hns']

theorem temporalCmp_text {a b : TemporalValue ch} (h : a.offsetSecs = none) :
    temporalCmp N.toCalendar a b = compare a.iso b.iso := by
  have hutc : utcNs N.toCalendar a = none := by rw [utcNs, h]
  rw [temporalCmp, hutc]

/-! ## Years as texts -/

theorem minus_lt {c : Char} (h : c.isDigit = true) : '-' < c := by
  rw [Char.isDigit, Bool.and_eq_true, decide_eq_true_eq, decide_eq_true_eq] at h
  have hle : '0' ≤ c := h.1
  exact lt_of_lt_of_le (show '-' < '0' by decide) hle

theorem minus_lt_padNumber (w n : Nat) (x y : List Char) : '-' :: x < padNumber w n ++ y := by
  cases hpad : padNumber w n with
  | nil => exact absurd hpad (padNumber_ne_nil w n)
  | cons c cs =>
    have hdigit : c.isDigit = true := isDigit_of_mem_padNumber (hpad ▸ List.mem_cons_self)
    exact List.cons_lt_cons_iff.mpr (.inl (minus_lt hdigit))

theorem yearNotation_of_lt {y : Int} (h : 9999 < y) : yearNotation y = '+' :: yearDigits y := by
  rw [yearNotation, if_neg (by omega), if_neg (by omega)]

theorem yearNotation_of_neg {y : Int} (h : y < 0) : yearNotation y = '-' :: yearDigits y := by
  rw [yearNotation, if_neg (by omega), if_pos h]

theorem yearNotation_of_le {y : Int} (h : 0 ≤ y) (h' : y ≤ 9999) : yearNotation y = padNumber 4 y.natAbs := if_pos ⟨h, h'⟩

theorem yearNotation_lt {y y' : Int} (h : YearTextFirst y y') (x x' : List Char) :
    yearNotation y ++ '-' :: x < yearNotation y' ++ '-' :: x' := by
  have hdigits : ∀ z, ∀ c ∈ yearDigits z, c.isDigit = true := fun z c hc => isDigit_of_mem_padNumber hc
  rcases h with ⟨hy, hy'⟩ | ⟨hy, hy', hle⟩ | ⟨hy, -, -, hy', hlt⟩ | ⟨⟨hy, hy'⟩ | ⟨hy, hy'⟩, hlt⟩
  · have hplus : ('+' : Char) < '-' := by decide
    rw [yearNotation_of_lt hy]
    rcases lt_or_ge y' 0 with hneg | hpos
    · rw [yearNotation_of_neg hneg]
      exact List.cons_lt_cons_iff.mpr (.inl hplus)
    · rw [yearNotation_of_le hpos hy']
      exact lt_trans (List.cons_lt_cons_iff.mpr (.inl hplus)) (minus_lt_padNumber 4 _ [] _)
  · rw [yearNotation_of_neg hy, yearNotation_of_le hy' hle]
    exact minus_lt_padNumber 4 _ _ _
  · rw [yearNotation_of_le hy (by omega), yearNotation_of_le (by omega) hy']
    exact padNumber_append_lt (by decide) (by omega) (by omega) _ _
  · rw [yearNotation_of_lt hy, yearNotation_of_lt hy']
    exact List.cons_lt_cons_iff.mpr (.inr ⟨rfl, digits_append_lt (fun _ => minus_lt) (hdigits y) (hdigits y') hlt x x'⟩)
  · rw [yearNotation_of_neg hy, yearNotation_of_neg hy']
    exact List.cons_lt_cons_iff.mpr (.inr ⟨rfl, digits_append_lt (fun _ => minus_lt) (hdigits y) (hdigits y') hlt x x'⟩)

/-- Of two years one has the first text. -/
theorem yearTextFirst_total {y y' : Int} (h : y ≠ y') : YearTextFirst y y' ∨ YearTextFirst y' y := by
  have hside : (9999 < y ∧ 9999 < y' ∨ y < 0 ∧ y' < 0) →
      yearDigits y ++ ['-'] < yearDigits y' ++ ['-'] ∨ yearDigits y' ++ ['-'] < yearDigits y ++ ['-'] := by
    intro hsign
    refine lt_or_gt_of_ne fun heq => ?_
    have hsame := padNumber_injective (List.append_cancel_right heq)
    omega
  unfold YearTextFirst
  rcases lt_or_ge y 0 with hy | hy <;> rcases lt_or_ge y' 0 with hy' | hy'
  · rcases hside (.inr ⟨hy, hy'⟩) with hlt | hlt
    · exact .inl (.inr (.inr (.inr ⟨.inr ⟨hy, hy'⟩, hlt⟩)))
    · exact .inr (.inr (.inr (.inr ⟨.inr ⟨hy', hy⟩, hlt⟩)))
  · omega
  · omega
  · rcases lt_or_ge 9999 y with hbig | hsmall <;> rcases lt_or_ge 9999 y' with hbig' | hsmall'
    · rcases hside (.inl ⟨hbig, hbig'⟩) with hlt | hlt
      · exact .inl (.inr (.inr (.inr ⟨.inl ⟨hbig, hbig'⟩, hlt⟩)))
      · exact .inr (.inr (.inr (.inr ⟨.inl ⟨hbig', hbig⟩, hlt⟩)))
    · omega
    · omega
    · omega

/-! ## Dates and times as texts -/

/-- The texts of two dates of one year are in their order. -/
theorem dateNotation_lt {c c' : Civil} (hyear : c.year = c'.year) (h : c.dayNumber < c'.dayNumber) (x x' : List Char) :
    dateNotation c ++ x < dateNotation c' ++ x' := by
  have hbound : ∀ e : Civil, 1 ≤ e.month ∧ e.month < 10 ^ 2 ∧ e.day < 10 ^ 2 := by
    intro e
    have h1 := e.one_le_month
    have h2 := e.month_le
    have h3 := e.day_le
    have h4 := daysInMonth_le e.year e.month
    omega
  have hmonth : c.month < c'.month ∨ c.month = c'.month ∧ c.day < c'.day := by
    have h1 := (hbound c).1
    have h2 := (hbound c').1
    rw [Civil.dayNumber_lt_iff] at h
    unfold Civil.index monthIndex at h
    omega
  unfold dateNotation
  rw [hyear, List.append_assoc, List.append_assoc]
  refine append_left_lt _ (List.cons_lt_cons_iff.mpr (.inr ⟨rfl, ?_⟩))
  change padNumber 2 c.month ++ '-' :: padNumber 2 c.day ++ x < padNumber 2 c'.month ++ '-' :: padNumber 2 c'.day ++ x'
  rw [List.append_assoc, List.append_assoc]
  rcases hmonth with hlt | ⟨heq, hlt⟩
  · exact padNumber_append_lt (by decide) hlt (hbound c').2.1 _ _
  · rw [heq]
    exact append_left_lt _ (List.cons_lt_cons_iff.mpr (.inr ⟨rfl, padNumber_append_lt (by decide) hlt (hbound c').2.2 _ _⟩))

theorem dateNotation_lt_of_year {c c' : Civil} (h : YearTextFirst c.year c'.year) (x x' : List Char) :
    dateNotation c ++ x < dateNotation c' ++ x' := by
  unfold dateNotation
  rw [List.append_assoc, List.append_assoc]
  exact yearNotation_lt h _ _

/-- The seconds of a time as they are printed. -/
theorem timeTail_cases {s nanos : Nat} {tail : List Char} (h : TimeTail s nanos tail) :
    (tail = [] ∧ s = 0 ∧ nanos = 0) ∨ ∃ rest, tail = ':' :: (padNumber 2 (s + nanos / 1000000000) ++ rest) ∧
      (rest = [] ∧ nanos = 0 ∨ ∃ digits, rest = '.' :: digits ∧ (∀ c ∈ digits, c.isDigit = true) ∧
        fractionValue (if nanos < 1000000000 then 9 else 10) digits = nanos) := by
  cases h with
  | minutes hs hn => exact .inl ⟨rfl, hs, hn⟩
  | seconds hn =>
    refine .inr ⟨[], ?_, .inl ⟨rfl, hn⟩⟩
    rw [hn, Nat.zero_div, Nat.add_zero, List.append_nil]
  | fraction digits hd hv => exact .inr ⟨'.' :: digits, rfl, .inr ⟨digits, rfl, hd, hv⟩⟩

/-- The later of two seconds is printed as a later one, or as the same with more nanoseconds. -/
theorem printedSecond_cases {s nanos s' nanos' : Nat} (hs' : s' < 60) (hn : NanosFit s nanos) (hn' : NanosFit s' nanos')
    (h : s < s' ∨ s = s' ∧ nanos < nanos') :
    s' + nanos' / 1000000000 < 10 ^ 2 ∧ (0 < s' ∨ 0 < nanos') ∧ (s + nanos / 1000000000 < s' + nanos' / 1000000000 ∨
      s + nanos / 1000000000 = s' + nanos' / 1000000000 ∧ nanos < nanos' ∧ (nanos < 1000000000 ↔ nanos' < 1000000000)) := by
  unfold NanosFit at hn hn'
  omega

theorem timeTail_lt {s nanos s' nanos' : Nat} {tail tail' : List Char} (hs' : s' < 60) (hn : NanosFit s nanos)
    (hn' : NanosFit s' nanos') (ht : TimeTail s nanos tail) (ht' : TimeTail s' nanos' tail')
    (h : s < s' ∨ s = s' ∧ nanos < nanos') : tail < tail' := by
  obtain ⟨hbound, hlate, hcases⟩ := printedSecond_cases hs' hn hn' h
  rcases timeTail_cases ht' with ⟨-, hs0, hn0⟩ | ⟨rest', rfl, hrest'⟩
  · rcases hlate with hlate | hlate
    · exact absurd hs0 (Nat.ne_of_gt hlate)
    · exact absurd hn0 (Nat.ne_of_gt hlate)
  rcases timeTail_cases ht with ⟨rfl, -, -⟩ | ⟨rest, rfl, hrest⟩
  · exact List.nil_lt_cons _ _
  refine List.cons_lt_cons_iff.mpr (.inr ⟨rfl, ?_⟩)
  rcases hcases with hlt | ⟨hsame, hlt, hplaces⟩
  · exact padNumber_append_lt (by decide) hlt hbound _ _
  -- the seconds that are printed are the same, and the fractions are in order
  · rw [hsame]
    refine append_left_lt _ ?_
    rcases hrest' with ⟨-, hzero⟩ | ⟨digits', rfl, hd', hv'⟩
    · exact absurd hlt (hzero ▸ Nat.not_lt_zero nanos)
    rcases hrest with ⟨rfl, -⟩ | ⟨digits, rfl, hd, hv⟩
    · exact List.nil_lt_cons _ _
    · simp only [hplaces] at hv
      exact List.cons_lt_cons_iff.mpr (.inr ⟨rfl, lt_of_fractionValue_lt hd hd' (hv.trans_lt (hlt.trans_eq hv'.symm))⟩)

/-- The texts of two times are in their order, or the same. -/
theorem timeNotation_lt {ranged : Prop} {time time' : Nat × Nat} {text text' : List Char} (ht : TimeNotation ranged time text)
    (ht' : TimeNotation ranged time' text') (hne : text ≠ text')
    (h : time.1 < time'.1 ∨ time.1 = time'.1 ∧ time.2 < time'.2) : text < text' := by
  obtain ⟨hh, mm, s, tail, hh24, hm60, hs60, hsecs, hfit, rfl, htail⟩ := ht
  obtain ⟨hh', mm', s', tail', hh24', hm60', hs60', hsecs', hfit', rfl, htail'⟩ := ht'
  rcases Nat.lt_or_ge hh hh' with hlt | hge
  · exact padNumber_append_lt (by decide) hlt (by omega) _ _
  have hhour : hh = hh' := by omega
  rw [hhour] at hne ⊢
  refine append_left_lt _ (List.cons_lt_cons_iff.mpr (.inr ⟨rfl, ?_⟩))
  rcases Nat.lt_or_ge mm mm' with hlt | hge
  · exact padNumber_append_lt (by decide) hlt (by omega) _ _
  have hminute : mm = mm' := by omega
  rw [hminute] at hne ⊢
  refine append_left_lt _ ?_
  rcases htail with ⟨hr, htail⟩ | ⟨hr, rfl⟩
  · rcases htail' with ⟨-, htail'⟩ | ⟨hr', -⟩
    · exact timeTail_lt hs60' hfit hfit' htail htail' (by omega)
    · exact absurd hr hr'
  · rcases htail' with ⟨hr', -⟩ | ⟨-, rfl⟩
    · exact absurd hr' hr
    · unfold NanosFit at hfit hfit'
      rcases Nat.lt_or_ge (s + time.2 / 1000000000) (s' + time'.2 / 1000000000) with hlt | hge
      · exact List.cons_lt_cons_iff.mpr (.inr ⟨rfl, padNumber_lt (by decide) hlt (by omega)⟩)
      · refine absurd ?_ hne
        rw [show s + time.2 / 1000000000 = s' + time'.2 / 1000000000 by omega]

/-! ## Plain texts in order -/

theorem before_trichotomy (s s' : Stamp) : s.Before s' ∨ s = s' ∨ s'.Before s := by
  rcases s with ⟨d, t, n⟩
  rcases s' with ⟨d', t', n'⟩
  rw [Stamp.mk.injEq]
  unfold Stamp.Before
  dsimp only
  omega

theorem not_before_of_before {s s' : Stamp} (h : s.Before s') : ¬s'.Before s := by
  unfold Stamp.Before at h ⊢
  omega

theorem dayNumber_lt_of_year {c c' : Civil} (h : c.year < c'.year) : c.dayNumber < c'.dayNumber := by
  have h1 := c.month_le
  have h2 := c'.one_le_month
  refine Civil.dayNumber_lt_iff.mpr (.inl ?_)
  unfold Civil.index monthIndex
  omega

/-- The moment of a value without an offset. -/
theorem stamp_local {m : Moment} (hoff : m.offset = none) (htime : ∀ time, m.time = some time → time.1 < 86400) :
    m.stamp = ⟨m.date.elim 0 Civil.dayNumber, m.time.elim 0 Prod.fst, m.time.elim 0 Prod.snd⟩ := by
  have hlt : m.time.elim 0 Prod.fst < 86400 := by
    cases ht : m.time with
    | none => exact Nat.zero_lt_succ _
    | some time => exact htime time ht
  have hsecond : m.utcSecond = (m.time.elim 0 Prod.fst : Nat) := by
    rw [Moment.utcSecond, hoff]
    exact Int.sub_zero _
  have hday : m.utcSecond / 86400 = 0 := by omega
  have hmod : (m.utcSecond % 86400).toNat = m.time.elim 0 Prod.fst := by omega
  rw [Moment.stamp, hmod, hday]
  cases m.date with
  | none => rfl
  | some c =>
    rw [Stamp.mk.injEq]
    exact ⟨Int.add_zero _, rfl, rfl⟩

theorem second_lt_of_timeNotation {ranged : Prop} {time : Nat × Nat} {text : List Char} (h : TimeNotation ranged time text) :
    time.1 < 86400 := by
  obtain ⟨hh, mm, s, tail, hh24, hm60, hs60, hsecs, -⟩ := h
  omega

theorem second_lt_of_plainText {text : List Char} {m : Moment} (h : PlainText text m) :
    ∀ time, m.time = some time → time.1 < 86400 := by
  intro time ht
  unfold PlainText at h
  rw [ht] at h
  cases hd : m.date with
  | none =>
    rw [hd] at h
    exact second_lt_of_timeNotation h
  | some c =>
    rw [hd] at h
    obtain ⟨rest, hrest, -⟩ := h
    exact second_lt_of_timeNotation hrest

/-- Two moments of one kind: both have a date or both not, and so for the time, and there is no offset. -/
structure SameParts (m m' : Moment) : Prop where
  date : m.date.isSome = m'.date.isSome
  time : m.time.isSome = m'.time.isSome
  offset : m.offset = none
  offset' : m'.offset = none

theorem SameParts.symm {m m' : Moment} (h : SameParts m m') : SameParts m' m := ⟨h.date.symm, h.time.symm, h.offset', h.offset⟩

/-- The first of two moments has the first plain text, unless the texts are the same or the year's text is out of order. -/
theorem plainText_lt {m m' : Moment} {s t : List Char} (hparts : SameParts m m') (hs : PlainText s m) (ht : PlainText t m')
    (hyears : ∀ c c', m.date = some c → m'.date = some c' → c.year = c'.year ∨ YearTextFirst c.year c'.year) (hne : s ≠ t)
    (h : m.stamp.Before m'.stamp) : s < t := by
  rw [stamp_local hparts.offset (second_lt_of_plainText hs), stamp_local hparts.offset' (second_lt_of_plainText ht)] at h
  have hdate := hparts.date
  have htime := hparts.time
  unfold PlainText at hs ht
  rcases m with ⟨_ | c, _ | time, off⟩ <;> rcases m' with ⟨_ | c', _ | time', off'⟩ <;> cases hdate <;> cases htime
  case none.none => exact hs.elim
  case none.some =>
    refine timeNotation_lt hs ht hne ?_
    rcases h with h | ⟨-, h⟩
    · exact absurd h (lt_irrefl _)
    · exact h
  case some.none =>
    have hday : c.dayNumber < c'.dayNumber := by
      rcases h with h | ⟨-, h | ⟨-, h⟩⟩
      · exact h
      · exact absurd h (lt_irrefl _)
      · exact absurd h (lt_irrefl _)
    rw [hs, ht, ← List.append_nil (dateNotation c), ← List.append_nil (dateNotation c')]
    rcases hyears c c' rfl rfl with hyear | hfirst
    · exact dateNotation_lt hyear hday [] []
    · exact dateNotation_lt_of_year hfirst [] []
  case some.some =>
    obtain ⟨rest, hrest, rfl⟩ := hs
    obtain ⟨rest', hrest', rfl⟩ := ht
    rcases h with hday | ⟨hday, h⟩
    · rcases hyears c c' rfl rfl with hyear | hfirst
      · exact dateNotation_lt hyear hday _ _
      · exact dateNotation_lt_of_year hfirst _ _
    · have hsame : c = c' := Civil.dayNumber_injective hday
      subst hsame
      refine append_left_lt _ (List.cons_lt_cons_iff.mpr (.inr ⟨rfl, ?_⟩))
      refine timeNotation_lt hrest hrest' ?_ h
      rintro rfl
      exact hne rfl

/-- Years that are in order as texts are so in both directions. -/
theorem yearsOrdered_symm {m m' : Moment} (h : YearsOrdered m m') : YearsOrdered m' m := by
  intro c' c hc' hc
  rcases h c c' hc hc' with heq | hiff
  · exact .inl heq.symm
  · by_cases heq : c'.year = c.year
    · exact .inl heq
    · refine .inr ⟨fun hlt => ?_, fun hfirst => ?_⟩
      · rcases yearTextFirst_total heq with hfirst | hfirst
        · exact hfirst
        · exact absurd (hiff.mpr hfirst) (lt_asymm hlt)
      · rcases lt_trichotomy c'.year c.year with hlt | hlt | hlt
        · exact hlt
        · exact absurd hlt heq
        · have hboth := yearNotation_lt hfirst [] []
          exact absurd hboth (lt_asymm (yearNotation_lt (hiff.mp hlt) [] []))

/-- Of moments in order the years are so too. -/
theorem year_le_of_before {m m' : Moment} {c c' : Civil} (hparts : SameParts m m') (hc : m.date = some c)
    (hc' : m'.date = some c') (htime : ∀ time, m.time = some time → time.1 < 86400)
    (htime' : ∀ time, m'.time = some time → time.1 < 86400)
    (h : m.stamp.Before m'.stamp) : c.year ≤ c'.year := by
  rw [stamp_local hparts.offset htime, stamp_local hparts.offset' htime', hc, hc'] at h
  by_contra hlt
  have hday := dayNumber_lt_of_year (not_le.mp hlt)
  rcases h with h | ⟨h, -⟩
  · exact lt_asymm h hday
  · exact absurd h (ne_of_gt hday)

theorem before_of_year_lt {m m' : Moment} {c c' : Civil} (hparts : SameParts m m') (hc : m.date = some c)
    (hc' : m'.date = some c') (htime : ∀ time, m.time = some time → time.1 < 86400)
    (htime' : ∀ time, m'.time = some time → time.1 < 86400)
    (h : c.year < c'.year) : m.stamp.Before m'.stamp := by
  rw [stamp_local hparts.offset htime, stamp_local hparts.offset' htime', hc, hc']
  exact .inl (dayNumber_lt_of_year h)

/-- The text of a year stands at the start of the text of its date. -/
theorem plainText_lt_of_year {m m' : Moment} {s t : List Char} {c c' : Civil} (hparts : SameParts m m') (hc : m.date = some c)
    (hc' : m'.date = some c') (hs : PlainText s m) (ht : PlainText t m') (h : YearTextFirst c.year c'.year) : s < t := by
  have htime := hparts.time
  unfold PlainText at hs ht
  rw [hc] at hs
  rw [hc'] at ht
  cases hm : m.time with
  | none =>
    cases hm' : m'.time with
    | none =>
      rw [hm] at hs
      rw [hm'] at ht
      rw [hs, ht, ← List.append_nil (dateNotation c), ← List.append_nil (dateNotation c')]
      exact dateNotation_lt_of_year h [] []
    | some time' =>
      rw [hm, hm'] at htime
      nomatch htime
  | some time =>
    cases hm' : m'.time with
    | none =>
      rw [hm, hm'] at htime
      nomatch htime
    | some time' =>
      rw [hm] at hs
      rw [hm'] at ht
      obtain ⟨rest, -, rfl⟩ := hs
      obtain ⟨rest', -, rfl⟩ := ht
      exact dateNotation_lt_of_year h _ _

theorem plainTexts_iff {m m' : Moment} {s t : String} (hparts : SameParts m m') (hs : PlainText s.toList m)
    (ht : PlainText t.toList m') :
    compare s t = m.stamp.order m'.stamp ↔ (m.stamp = m'.stamp ↔ s.toList = t.toList) ∧ YearsOrdered m m' := by
  have hlt : ∀ {x y : String}, x < y ↔ x.toList < y.toList := String.lt_iff_toList_lt
  rw [compare_eq_order_iff, hlt, hlt]
  constructor
  · rintro ⟨hfirst, hlast⟩
    refine ⟨⟨fun heq => ?_, fun heq => ?_⟩, fun c c' hc hc' => ?_⟩
    · rcases lt_trichotomy s.toList t.toList with h | h | h
      · exact absurd (hfirst.mp h) (heq ▸ fun hb => not_before_of_before hb hb)
      · exact h
      · exact absurd (hlast.mp h) (heq ▸ fun hb => not_before_of_before hb hb)
    · rcases before_trichotomy m.stamp m'.stamp with h | h | h
      · exact absurd (hfirst.mpr h) (heq ▸ lt_irrefl _)
      · exact h
      · exact absurd (hlast.mpr h) (heq ▸ lt_irrefl _)
    · by_cases heq : c.year = c'.year
      · exact .inl heq
      · refine .inr ⟨fun hyear => ?_, fun hyear => ?_⟩
        · have hst := hfirst.mpr (before_of_year_lt hparts hc hc' (second_lt_of_plainText hs) (second_lt_of_plainText ht) hyear)
          rcases yearTextFirst_total heq with h | h
          · exact h
          · exact absurd (plainText_lt_of_year hparts.symm hc' hc ht hs h) (lt_asymm hst)
        · have hle := year_le_of_before hparts hc hc' (second_lt_of_plainText hs) (second_lt_of_plainText ht)
            (hfirst.mp (plainText_lt_of_year hparts hc hc' hs ht hyear))
          exact lt_of_le_of_ne hle heq
  · rintro ⟨hsame, hyears⟩
    have hforward : ∀ {r r' : Moment} {u v : List Char}, SameParts r r' → PlainText u r → PlainText v r' → u ≠ v →
        YearsOrdered r r' → r.stamp.Before r'.stamp → u < v := by
      intro r r' u v hp hu hv hne hyears hbefore
      refine plainText_lt hp hu hv (fun c c' hc hc' => ?_) hne hbefore
      rcases hyears c c' hc hc' with heq | hiff
      · exact .inl heq
      · rcases lt_or_eq_of_le (year_le_of_before hp hc hc' (second_lt_of_plainText hu) (second_lt_of_plainText hv) hbefore)
        with hlt | heq
        · exact .inr (hiff.mp hlt)
        · exact .inl heq
    have hne : ∀ {x y : Stamp}, x.Before y → x ≠ y := by
      rintro x y hb rfl
      exact not_before_of_before hb hb
    have hst : m.stamp.Before m'.stamp → s.toList < t.toList := fun hb =>
      hforward hparts hs ht (fun heq => hne hb (hsame.mpr heq)) hyears hb
    have hts : m'.stamp.Before m.stamp → t.toList < s.toList := fun hb =>
      hforward hparts.symm ht hs (fun heq => hne hb (hsame.mpr heq.symm).symm) (yearsOrdered_symm hyears) hb
    refine ⟨⟨fun h => ?_, hst⟩, ⟨fun h => ?_, hts⟩⟩
    · rcases before_trichotomy m.stamp m'.stamp with hb | heq | hb
      · exact hb
      · exact absurd h (hsame.mp heq ▸ lt_irrefl _)
      · exact absurd h (lt_asymm (hts hb))
    · rcases before_trichotomy m.stamp m'.stamp with hb | heq | hb
      · exact absurd h (lt_asymm (hst hb))
      · exact absurd h (hsame.mp heq ▸ lt_irrefl _)
      · exact hb

theorem textsRight_iff {m m' : Moment} {s t : String} (hparts : SameParts m m') :
    compare s t = m.stamp.order m'.stamp ↔ TextsRight s.toList t.toList m m' := by
  unfold TextsRight
  by_cases hp : PlainText s.toList m ∧ PlainText t.toList m'
  · rw [plainTexts_iff hparts hp.1 hp.2]
    exact ⟨fun h => ⟨fun _ => h, fun hn => absurd hp hn⟩, fun h => h.1 hp⟩
  · rw [compare_eq_iff_firstDifference]
    exact ⟨fun h => ⟨fun hn => absurd hn hp, fun _ => h⟩, fun h => h.2 hp⟩

end TemporalOrderAux

open TemporalOrderAux

/-- Two values of one kind are compared as what they denote exactly if no leap second runs into the time of the other one, of
values with an offset, and if the texts are right, of all others. -/
theorem temporal_cmp_iff (hD : N.LawfulDates) (hT : N.LawfulTimes) {a b : TemporalValue ch} {m m' : Moment}
    (hkind : a.kind = b.kind) (ha : Denotes N a m) (hb : Denotes N b m') :
    temporalCmp N.toCalendar a b = m.stamp.order m'.stamp ↔ OrderRight a b m m' := by
  have hbound := fun {tv : TemporalValue ch} {r : Moment} (h : Denotes N tv r) => nanos_lt hT h
  have hka := ha.kind
  have hkb := hb.kind
  have hlocal : ∀ {tv : TemporalValue ch} {r : Moment}, Denotes N tv r → tv.offsetSecs = none → r.offset = none :=
    fun h hoff => h.offset.trans hoff
  have htime : ∀ {tv : TemporalValue ch} {r : Moment}, Denotes N tv r → r.time.isSome = tv.time.isSome := fun h => by
    rw [h.time, Option.isSome_map]
  unfold OrderRight
  rw [← hkind] at hkb
  cases hk : a.kind with
  | dateTime =>
    rw [temporalCmp_dateTime hD hk (hkind ▸ hk) ha hb]
    exact nanosOf_order_iff (second_lt m) (second_lt m') (hbound ha) (hbound hb)
  | time =>
    obtain ⟨hday, hday', hcmp⟩ := temporalCmp_time hk (hkind ▸ hk) ha hb
    rw [hcmp]
    exact nanosOf_mod_order_iff hday hday' (second_lt m) (second_lt m') (hbound ha) (hbound hb)
  | date =>
    rw [hk] at hka hkb
    obtain ⟨hd, ht, hoff⟩ := hka
    obtain ⟨hd', ht', hoff'⟩ := hkb
    rw [temporalCmp_text hoff]
    refine textsRight_iff ⟨hd.trans hd'.symm, ?_, hlocal ha hoff, hlocal hb hoff'⟩
    rw [htime ha, htime hb, ht, ht']
  | localTime =>
    rw [hk] at hka hkb
    obtain ⟨hd, ht, hoff⟩ := hka
    obtain ⟨hd', ht', hoff'⟩ := hkb
    rw [temporalCmp_text hoff]
    refine textsRight_iff ⟨by rw [hd, hd'], ?_, hlocal ha hoff, hlocal hb hoff'⟩
    rw [htime ha, htime hb, ht, ht']
  | localDateTime =>
    rw [hk] at hka hkb
    obtain ⟨hd, ht, hoff⟩ := hka
    obtain ⟨hd', ht', hoff'⟩ := hkb
    rw [temporalCmp_text hoff]
    refine textsRight_iff ⟨hd.trans hd'.symm, ?_, hlocal ha hoff, hlocal hb hoff'⟩
    rw [htime ha, htime hb, ht, ht']

/-- The years -2 and -1 have their texts in the other order. -/
theorem temporal_cmp_iff_negative :
    ¬OrderRight (dateValue Proleptic.lib ⟨⟨-2, 1, 1, by decide, by decide, by decide, by decide⟩, by decide, by decide⟩)
      (dateValue Proleptic.lib ⟨⟨-1, 1, 1, by decide, by decide, by decide, by decide⟩, by decide, by decide⟩)
      ⟨some ⟨-2, 1, 1, by decide, by decide, by decide, by decide⟩, none, none⟩
      ⟨some ⟨-1, 1, 1, by decide, by decide, by decide, by decide⟩, none, none⟩ := by
  refine mt (temporal_cmp_iff Proleptic.lib_lawfulDates Proleptic.lib_lawfulTimes ?_ ?_ ?_).mpr ?_
  · rfl
  · refine ⟨?_, rfl, rfl, rfl, rfl, rfl⟩
    rintro c ⟨rfl⟩
    exact ⟨by decide, rfl⟩
  · refine ⟨?_, rfl, rfl, rfl, rfl, rfl⟩
    rintro c ⟨rfl⟩
    exact ⟨by decide, rfl⟩
  · decide

/-- Midnight has two texts. -/
theorem two_texts_of_midnight : ∃ (a b : TemporalValue Proleptic.chrono) (m : Moment),
    (tryParseTemporalIso Proleptic.chrono "00:00").run = .ok (some a) ∧
      (tryParseTemporalIso Proleptic.chrono "00:00:00").run = .ok (some b) ∧ a.kind = b.kind ∧ Denotes Proleptic.lib a m ∧
        Denotes Proleptic.lib b m ∧ temporalCmp Proleptic.lib.toCalendar a b ≠ m.stamp.order m.stamp := by
  refine ⟨⟨.localTime, "00:00", none, some ⟨0, 0, 0, 0, by decide, by decide, by decide, by decide⟩, none, none⟩,
    ⟨.localTime, "00:00:00", none, some ⟨0, 0, 0, 0, by decide, by decide, by decide, by decide⟩, none, none⟩,
    ⟨none, some (0, 0), none⟩, rfl, rfl, rfl, ?_, ?_, by decide⟩
  · exact ⟨nofun, rfl, rfl, rfl, rfl, rfl⟩
  · exact ⟨nofun, rfl, rfl, rfl, rfl, rfl⟩

/-! ## The texts that are printed -/

/-- The text of a date is the plain one. -/
theorem formatDate_plain (hD : N.LawfulDates) (hF : N.LawfulFormats) (d : ch.Date) :
    N.formatDate d = dateNotation (hD.civil d) := by
  have hrange : ChronoYear (N.year d) := ⟨hD.minYear_le d, hD.le_maxYear d⟩
  have hyear : yearText (N.year d) = yearNotation (N.year d) := by
    unfold yearText yearNotation yearDigits
    rw [if_pos hrange]
    by_cases h : 0 ≤ N.year d ∧ N.year d ≤ 9999
    · rw [if_pos h, if_pos h, show (N.year d).toNat = (N.year d).natAbs by omega]
    · rw [if_neg h, if_neg h]
  rw [hF.formatDate_eq, hyear, List.append_assoc]
  rfl

/-- The text of a date out of range is the plain one. -/
theorem formatExtendedDate_plain {c : Civil} (haccepted : AcceptedYear c.year) (hrange : ¬ChronoYear c.year) :
    formatExtendedDate (ymd c) = dateNotation c := by
  have hfit : Fits c.year := by
    unfold AcceptedYear at haccepted
    unfold Fits
    omega
  have hint : (ymd c).year.toInt = c.year := toInt_ofInt_of_fits hfit
  have hneg : (ymd c).year < 0 ↔ c.year < 0 := by
    rw [Int64.lt_iff_toInt_lt, hint]
    rfl
  have hlarge : ¬(0 ≤ c.year ∧ c.year ≤ 9999) := by
    intro h
    refine hrange ⟨?_, ?_⟩
    · unfold minYear
      omega
    · unfold maxYear
      omega
  unfold formatExtendedDate dateNotation yearNotation yearDigits
  rw [if_neg hlarge, if_neg hrange, hint]
  simp only [hneg]
  rw [List.append_assoc, List.append_assoc, List.append_assoc]
  rfl

/-- The text of a time is plain. -/
theorem formatLocaltime_plain (hT : N.LawfulTimes) (hF : N.LawfulFormats) (t : ch.Time) :
    TimeNotation True (N.secondsOfDay t, N.nanosecond t) (formatLocaltime N t) := by
  have hfit := hT.nanos_fit t
  refine ⟨N.hour t, N.minute t, N.second t, ?_⟩
  unfold formatLocaltime
  by_cases hns : N.nanosecond t = 0
  · by_cases hs : N.second t = 0
    · refine ⟨[], hT.hour_lt t, hT.minute_lt t, hT.second_lt t, rfl, hfit, ?_, .inl ⟨trivial, .minutes hs hns⟩⟩
      rw [if_pos ⟨hns, hs⟩, hF.formatHourMinute_eq, List.append_nil]
    · refine ⟨':' :: padNumber 2 (N.second t), hT.hour_lt t, hT.minute_lt t, hT.second_lt t, rfl, hfit, ?_,
        .inl ⟨trivial, .seconds hns⟩⟩
      rw [if_neg fun h => hs h.2, if_pos hns, hF.formatTime_eq, hns, Nat.zero_div, Nat.add_zero, List.append_assoc]
      rfl
  · have hdigits : ∀ c ∈ trimEndMatches '0' (padNumber 9 (N.nanosecond t)), c.isDigit = true :=
      fun c hc => isDigit_of_mem_trimEndMatches hc fun d hd => isDigit_of_mem_padNumber hd
    have hvalue : fractionValue (if N.nanosecond t < 1000000000 then 9 else 10)
        (trimEndMatches '0' (padNumber 9 (N.nanosecond t))) = N.nanosecond t := by
      obtain ⟨heq, hlt⟩ := padNumber_eq_lastDigits 9 (N.nanosecond t)
      have hlen : (padNumber 9 (N.nanosecond t)).length = if N.nanosecond t < 1000000000 then 9 else 10 := by
        split
        · next h => exact length_padNumber (by decide) h
        · next h =>
          have hten : (Nat.toDigits 10 (N.nanosecond t)).length ≤ 10 := by
            refine (Nat.length_toDigits_le_iff (by decide) (by decide)).mpr ?_
            rcases hfit with hfit | hfit <;> omega
          have hnine : ¬(padNumber 9 (N.nanosecond t)).length ≤ 9 := fun hle =>
            h (hlt.trans_le (Nat.pow_le_pow_right (by decide) hle))
          rw [padNumber, List.length_append, List.length_replicate] at hnine ⊢
          omega
      rw [fractionValue_trimEndMatches, ← hlen, heq, length_lastDigits]
      exact fractionValue_lastDigits (heq ▸ hlt)
    refine ⟨_, hT.hour_lt t, hT.minute_lt t, hT.second_lt t, rfl, hfit, ?_, .inl ⟨trivial, .fraction _ hdigits hvalue⟩⟩
    rw [if_neg fun h => hns h.1, if_neg hns, hF.formatTime_eq]
    simp only [List.append_assoc, List.cons_append, List.nil_append]

/-- The dates, the times of day and the local times that the program prints are plain texts. -/
theorem plainText_printed (hD : N.LawfulDates) (hT : N.LawfulTimes) (hF : N.LawfulFormats) (d : ch.Date) (t : ch.Time) :
    PlainText (N.formatDate d) ⟨some (hD.civil d), none, none⟩ ∧
      PlainText (formatLocaltime N t) ⟨none, some (N.secondsOfDay t, N.nanosecond t), none⟩ ∧
        PlainText (formatLocaldatetime N d t) ⟨some (hD.civil d), some (N.secondsOfDay t, N.nanosecond t), none⟩ := by
  have hrange : ChronoYear (N.year d) := ⟨hD.minYear_le d, hD.le_maxYear d⟩
  have htime := formatLocaltime_plain hT hF t
  refine ⟨formatDate_plain hD hF d, htime, formatLocaltime N t, ?_, ?_⟩
  · have htrue : ChronoYear (hD.civil d).year = True := eq_true hrange
    rw [htrue]
    exact htime
  · rw [formatLocaldatetime, formatDate_plain hD hF, List.append_assoc]
    rfl

end PgEddy
