import PgEddy.Truncation

/-!
# Durations between temporal values

How many months, days and nanoseconds lie between two temporal values. A date outside the range of the calendar library is a text
only, and is counted with by the formulas here.
-/

namespace PgEddy

open Gregorian Text

/-! ## Dates of any year -/

/-- A year, a month and a day. -/
structure Ymd where
  year : Int64
  month : Nat
  day : Nat
  deriving DecidableEq

/-- A date with a sign and a year of five digits or more. -/
def parseExtendedDateYmd (s : List Char) : Option Ymd := do
  let s := trim s
  let (sign, rest) ←
    match s with
    | '+' :: rest => some ((1 : Int64), rest)
    | '-' :: rest => some (-1, rest)
    | _ => none
  let (yearStr, afterYear) ← splitFirst '-' rest
  guard (5 ≤ byteLen yearStr ∧ yearStr.all Char.isDigit)
  let year ← parseI64 yearStr
  let (monthStr, dayStr) ← splitFirst '-' afterYear
  let month ← parseUnsigned (2 ^ 32) monthStr
  let day ← parseUnsigned (2 ^ 32) dayStr
  guard (1 ≤ month ∧ month ≤ 12 ∧ 1 ≤ day ∧ day ≤ 31)
  return ⟨sign * year, month, day⟩

def formatExtendedDate (d : Ymd) : List Char :=
  (if d.year < 0 then '-' else '+') :: padNumber 9 d.year.toInt.natAbs ++ ['-'] ++ padNumber 2 d.month ++ ['-'] ++
    padNumber 2 d.day

def daysInMonthExt (year : Int64) (month : Nat) : Nat :=
  match month with
  | 1 | 3 | 5 | 7 | 8 | 10 | 12 => 31
  | 4 | 6 | 9 | 11 => 30
  | 2 => if year % 4 = 0 ∧ (year % 100 ≠ 0 ∨ year % 400 = 0) then 29 else 28
  | _ => 30

/-- A date some months later: its day is cut to the length of the month. -/
def addMonthsExt (build : Build) (d : Ymd) (months : Int64) : Exec Ymd := do
  let scaled ← build.int (d.year.toInt * 12)
  let start ← build.int (scaled.toInt + (d.month - 1))
  let totalMonths ← build.int (start.toInt + months.toInt)
  let y := Int64.ofInt (totalMonths.toInt / 12)
  let m := (totalMonths.toInt % 12).toNat + 1
  return ⟨y, m, min d.day (daysInMonthExt y m)⟩

section

variable {ch : Chrono} (N : NaiveLib ch)

/-- The date of the calendar library, if its range has it. -/
def chronoDate (d : Ymd) : Option ch.Date :=
  if -2 ^ 31 ≤ d.year.toInt ∧ d.year.toInt < 2 ^ 31 then N.fromYmdOpt d.year.toInt d.month d.day else none

def temporalYmd (tv : TemporalValue ch) : Option Ymd :=
  match tv.date with
  | some d => some ⟨.ofInt (N.year d), N.month d, N.day d⟩
  | none =>
    match tv.kind with
    | .date | .localDateTime | .dateTime =>
      parseExtendedDateYmd (((splitFirst 'T' tv.iso.toList).map Prod.fst).getD tv.iso.toList)
    | _ => none

/-- The days between two dates in the same month, or in the range of the calendar library. -/
def extendedDateDiffDays (a b : Ymd) : Int64 :=
  match chronoDate N a, chronoDate N b with
  | some ad, some bd => .ofInt (N.numDaysFromCe bd - N.numDaysFromCe ad)
  | _, _ => .ofInt (b.day - a.day)

/-! ## The count of days -/

/-- The conversion of a rational number to a machine integer: it is cut, and then taken into range. -/
def saturate (z : Int) : Int64 := .ofInt (max (-2 ^ 63) (min (2 ^ 63 - 1) z))

/-- The year of a day that is counted from March on. -/
def countedYear (build : Build) (d : Ymd) : Exec Int64 :=
  if d.month ≤ 2 then build.int (d.year.toInt - 1) else .ok d.year

/-- The number of a day. The products with decimal fractions are those of the rational numbers they stand for. -/
def toJdn (build : Build) (d : Ymd) : Exec Int64 := do
  let y ← countedYear build d
  let m := if d.month ≤ 2 then d.month + 12 else d.month
  let a := y.toInt / 100
  let two ← build.int (2 - a)
  let b ← build.int (two.toInt + a / 4)
  let shifted ← build.int (y.toInt + 4716)
  let sum ← build.int ((saturate ((36525 * shifted.toInt).tdiv 100)).toInt + (306001 * (m + 1) / 10000 : Nat))
  let sum ← build.int (sum.toInt + d.day)
  let sum ← build.int (sum.toInt + b.toInt)
  build.int (sum.toInt - 1524)

def extendedTotalDayDiff (build : Build) (a b : Ymd) : Exec Int64 :=
  match chronoDate N a, chronoDate N b with
  | some ad, some bd => .ok (.ofInt (N.numDaysFromCe bd - N.numDaysFromCe ad))
  | _, _ => do
    let jb ← toJdn build b
    let ja ← toJdn build a
    build.int (jb.toInt - ja.toInt)

/-! ## The difference of two values -/

/-- The time zones of the time zone library. -/
structure ZoneLib (ch : Chrono) where
  Zone : Type
  parse : String → Option Zone
  /-- The seconds since 1970 of a local time: the earliest one, or that of UTC where the zone has no such time. -/
  timestampIn : Zone → ch.Date → ch.Time → Int

/-- A month is given back where the days that remain point the other way. -/
def giveBackMonth (build : Build) (l r : Ymd) (months remDays : Int64) : Exec (Int64 × Int64) :=
  if 0 < months ∧ remDays < 0 then do
    let months ← build.int (months.toInt - 1)
    let aligned ← addMonthsExt build l months
    return (months, extendedDateDiffDays N aligned r)
  else if months < 0 ∧ 0 < remDays then do
    let months ← build.int (months.toInt + 1)
    let aligned ← addMonthsExt build l months
    return (months, extendedDateDiffDays N aligned r)
  else return (months, remDays)

/-- The months and the days from a date to another one. -/
def calendarDifference (build : Build) (l r : Ymd) : Exec (Int64 × Int64) := do
  let years ← build.int (r.year.toInt - l.year.toInt)
  let scaled ← build.int (years.toInt * 12)
  let months ← build.int (scaled.toInt + (r.month - l.month))
  let aligned ← addMonthsExt build l months
  giveBackMonth N build l r months (extendedDateDiffDays N aligned r)

/-- The days and the nanoseconds of a difference: a day is given back where the time points the other way. -/
def borrowDay (build : Build) (months remDays timeNs : Int64) : Exec (Int64 × Int64) :=
  let forward := 0 < months ∨ (months = 0 ∧ 0 < remDays) ∨ (months = 0 ∧ remDays = 0 ∧ 0 ≤ timeNs)
  if forward ∧ timeNs < 0 then do
    return (← build.int (remDays.toInt - 1), ← build.int (timeNs.toInt + 86400000000000))
  else if ¬forward ∧ 0 < timeNs then do
    return (← build.int (remDays.toInt + 1), ← build.int (timeNs.toInt - 86400000000000))
  else return (remDays, timeNs)

/-- The duration of months, of days and of nanoseconds. -/
def durationOf (totalMonths days ns : Int64) : CypherDuration :=
  let years := totalMonths / 12
  let months := totalMonths % 12
  let hours := ns / 3600000000000
  let minutes := ns % 3600000000000 / 60000000000
  let seconds := ns % 60000000000 / 1000000000
  let nanos := ns % 1000000000
  { years, months, weeks := 0, days, hours, minutes, seconds, nanoseconds := nanos,
    iso := CypherDuration.buildIso years months 0 days hours minutes seconds nanos }

/-- The nanoseconds of a time of day, without its offset if both values have one. -/
def clockNs (build : Build) (t : ch.Time) (offsetSecs : Option Int32) (bothOff : Bool) : Exec Int64 := do
  let off : Int := if bothOff then (offsetSecs.getD 0).toInt else 0
  let scaled ← build.int (off * 1000000000)
  build.int (timeToNs N.toCalendar t - scaled.toInt)

/-- The nanoseconds since 1970 of a value in a time zone, where only one of the two has an offset. -/
def zonedNs (build : Build) {ch : Chrono} (N : NaiveLib ch) (Z : ZoneLib ch) (tz : Z.Zone) (zonedDate : Option ch.Date)
    (midnight : ch.Time) (tv : TemporalValue ch) : Exec Int64 := do
  let d ← okOr ((tv.date.or zonedDate).or (N.fromYmdOpt 1970 1 1)) .unwrap
  let t := tv.time.getD midnight
  let secs ←
    match tv.offsetSecs with
    | some off => build.int (N.timestamp d t - off.toInt)
    | none => .ok (.ofInt (Z.timestampIn tz d t))
  let scaled ← build.int (secs.toInt * 1000000000)
  build.int (scaled.toInt + N.nanosecond t)

def durationBetween (Z : ZoneLib ch) (build : Build) (lhs rhs : TemporalValue ch) : Exec CypherDuration := do
  let midnight ← hmsNano ch 0 0 0 0
  let mixedZoned := lhs.offsetSecs.isSome != rhs.offsetSecs.isSome
  match if mixedZoned then (lhs.tzName.or rhs.tzName).bind Z.parse else none with
  | some tz => do
    let zonedDate := if lhs.offsetSecs.isSome then lhs.date else rhs.date
    let rns ← zonedNs build N Z tz zonedDate midnight rhs
    let lns ← zonedNs build N Z tz zonedDate midnight lhs
    return durationOf 0 0 (← build.int (rns.toInt - lns.toInt))
  | none =>
    let bothOff := lhs.offsetSecs.isSome && rhs.offsetSecs.isSome
    match temporalYmd N lhs, temporalYmd N rhs with
    | some l, some r => do
      let (months, remDays) ← calendarDifference N build l r
      let ltNs ← clockNs N build (lhs.time.getD midnight) lhs.offsetSecs bothOff
      let rtNs ← clockNs N build (rhs.time.getD midnight) rhs.offsetSecs bothOff
      let timeNs ← build.int (rtNs.toInt - ltNs.toInt)
      let (remDays, timeNs) ← borrowDay build months remDays timeNs
      return durationOf months remDays timeNs
    | _, _ => do
      let ltNs ← clockNs N build (lhs.time.getD midnight) lhs.offsetSecs bothOff
      let rtNs ← clockNs N build (rhs.time.getD midnight) rhs.offsetSecs bothOff
      return durationOf 0 0 (← build.int (rtNs.toInt - ltNs.toInt))

end

end PgEddy
