import PgEddy.Lib.Binary64
import PgEddy.Lib.Text

/-!
# Temporal values and durations

A temporal value and a duration keep the text they are printed and stored as beside their parts. Here are the functions that
read such a text back and the ones that print it. The calendar is a library of its own and a parameter (`Chrono`).
-/

namespace PgEddy

open Text Binary64

/-- The functions of the calendar library that the program calls. -/
structure Chrono where
  Date : Type
  Time : Type
  /-- `NaiveDate::parse_from_str` with the format `%Y-%m-%d`. -/
  parseDate : List Char → Option Date
  /-- `NaiveTime::from_hms_nano_opt`. -/
  fromHmsNano : Nat → Nat → Nat → Nat → Option Time

/-- A slice that starts or ends inside a character. -/
inductive Panic where
  | slice
  deriving DecidableEq

/-- A reader of text that may find nothing, or panic. -/
abbrev Parse (α : Type) := OptionT (Except Panic) α

def parsed {α : Type} (o : Option α) : Parse α := OptionT.mk (pure o)

/-- The text up to an offset: `s[..n]`. -/
def sliceTo (n : Nat) (s : List Char) : Parse (List Char) :=
  match prefixTo n s with
  | some p => pure p
  | none => OptionT.mk (.error .slice)

def parseU32 (s : List Char) : Parse Nat := parsed (parseUnsigned (2 ^ 32) s)

def parseI32 (s : List Char) : Option Int32 := (parseSigned 32 s).map Int32.ofInt

def parseI64 (s : List Char) : Option Int64 := (parseSigned 64 s).map Int64.ofInt

/-! ## Temporal values -/

inductive TemporalKind where
  | date
  | localTime
  | time
  | localDateTime
  | dateTime
  deriving DecidableEq

/-- A temporal instant: the text it is printed and stored as, and its parts. -/
structure TemporalValue (ch : Chrono) where
  kind : TemporalKind
  iso : String
  date : Option ch.Date
  time : Option ch.Time
  offsetSecs : Option Int32
  tzName : Option String

section

variable (ch : Chrono)

/-- A time of day: hours, minutes, and optional seconds with a fraction cut to nine digits. -/
def parseTimeStr (s : List Char) : Parse ch.Time :=
  match s.splitOn ':' with
  | hour :: minute :: rest => do
    let h ← parseU32 hour
    let m ← parseU32 minute
    let (sec, nano) ← match rest with
      | [] => pure (0, 0)
      | secStr :: _ =>
        match splitFirst '.' secStr with
        | some (whole, frac) => do
          let sVal ← parseU32 whole
          let padded ← sliceTo 9 (padZeros 9 frac)
          let ns ← parseU32 padded
          pure (sVal, ns)
        | none => do
          let sVal ← parseU32 secStr
          pure (sVal, 0)
    parsed (ch.fromHmsNano h m sec nano)
  | _ => failure

/-- The time and the offset of a text that ends with an offset. The seconds of the offset are not read. -/
def parseTimeWithOffset (s : List Char) : Parse (ch.Time × Int32) :=
  match stripSuffix 'Z' s with
  | some stripped => do
    let t ← parseTimeStr ch stripped
    pure (t, 0)
  | none => do
    let (timeStr, negative, off) ← match splitLast '+' s with
      | some (before, after) => pure (before, false, after)
      | none =>
        match splitLast '-' s with
        | some (before, after) => if 3 ≤ byteLen before then pure (before, true, after) else failure
        | none => failure
    let t ← parseTimeStr ch timeStr
    let sign : Int32 := if negative then -1 else 1
    let parts := off.splitOn ':'
    let oh ← parsed (parts.head?.bind parseI32)
    let om := (parts[1]?.bind parseI32).getD 0
    pure (t, sign * (oh * 3600 + om * 60))

/-! The five attempts of `try_parse_temporal_iso`. -/

def tryDate (s : List Char) : Parse (TemporalValue ch) := do
  guard (byteLen s = 10 ∧ s[4]? = some '-' ∧ 'T' ∉ s)
  let d ← parsed (ch.parseDate s)
  return ⟨.date, String.ofList s, some d, none, none, none⟩

def tryLocalTime (s : List Char) : Parse (TemporalValue ch) := do
  guard ('-' ∉ s ∧ 'T' ∉ s ∧ ':' ∈ s ∧ s.getLast? ≠ some 'Z' ∧ '+' ∉ s)
  let t ← parseTimeStr ch s
  return ⟨.localTime, String.ofList s, none, some t, none, none⟩

/-- A plus, or a minus when the first one is not near the start, cuts the text in two. -/
def hasOffset (s : List Char) : Prop :=
  s.getLast? = some 'Z' ∨ (∃ p ∈ splitLast '+' s, 2 < byteLen p.1) ∨ '+' ∈ s ∨ ('-' ∈ s ∧ ∃ fp ∈ find '-' s, 2 < fp)

instance (s : List Char) : Decidable (hasOffset s) := by
  unfold hasOffset
  infer_instance

def tryTime (s : List Char) : Parse (TemporalValue ch) := do
  guard ('T' ∉ s ∧ ':' ∈ s ∧ hasOffset s)
  let (t, off) ← parseTimeWithOffset ch s
  return ⟨.time, String.ofList s, none, some t, some off, none⟩

def tryLocalDateTime (s : List Char) : Parse (TemporalValue ch) := do
  let afterT := ((s.splitOn 'T')[1]?).getD []
  guard ('T' ∈ s ∧ s.getLast? ≠ some 'Z' ∧ '+' ∉ s ∧ '+' ∉ afterT ∧ '-' ∉ afterT)
  let (datePart, timePart) ← parsed (splitFirst 'T' s)
  let d ← parsed (ch.parseDate datePart)
  let t ← parseTimeStr ch timePart
  return ⟨.localDateTime, String.ofList s, some d, some t, none, none⟩

def tryDateTime (s : List Char) : Parse (TemporalValue ch) := do
  let (datePart, timePart) ← parsed (splitFirst 'T' s)
  let d ← parsed (ch.parseDate datePart)
  let (tp, tzName) := match splitFirst '[' timePart with
    | some (before, after) => (before, some (String.ofList (trimEndMatches ']' after)))
    | none => (timePart, none)
  let (t, off) ← parseTimeWithOffset ch tp
  return ⟨.dateTime, String.ofList s, some d, some t, some off, tzName⟩

/-- The temporal value that a text is, if it is one. -/
def tryParseTemporalIso (s : String) : Parse (TemporalValue ch) :=
  tryDate ch s.toList <|> tryLocalTime ch s.toList <|> tryTime ch s.toList <|> tryLocalDateTime ch s.toList <|>
    tryDateTime ch s.toList

end

/-- The offset as it is printed. -/
def formatOffset (offsetSecs : Int32) : List Char :=
  if offsetSecs = 0 then ['Z']
  else
    let sign := if offsetSecs < 0 then '-' else '+'
    let abs := offsetSecs.toInt.natAbs
    let h := abs / 3600
    let m := abs % 3600 / 60
    let s := abs % 60
    if s ≠ 0 then sign :: padNumber 2 h ++ [':'] ++ padNumber 2 m ++ [':'] ++ padNumber 2 s
    else sign :: padNumber 2 h ++ [':'] ++ padNumber 2 m

/-! ## Durations -/

/-- A duration: its components and the text it is printed and stored as. -/
structure CypherDuration where
  years : Int64
  months : Int64
  weeks : Int64
  days : Int64
  hours : Int64
  minutes : Int64
  seconds : Int64
  nanoseconds : Int64
  iso : String
  deriving DecidableEq

namespace CypherDuration

def intText (i : Int64) : List Char :=
  if i < 0 then '-' :: Nat.toDigits 10 i.toInt.natAbs else Nat.toDigits 10 i.toInt.natAbs

/-- A component that is not zero, with its unit. -/
def component (i : Int64) (unit : Char) : List Char := if i ≠ 0 then intText i ++ [unit] else []

/-- The text of a duration. -/
def buildIso (years months weeks days hours minutes seconds nanos : Int64) : String :=
  let secStr :=
    if nanos ≠ 0 then
      let frac := trimEndMatches '0' (padNumber 9 nanos.toInt.natAbs)
      let negative := seconds < 0 ∨ (seconds = 0 ∧ nanos < 0)
      (if negative then ['-'] else []) ++ Nat.toDigits 10 seconds.toInt.natAbs ++ ['.'] ++ frac ++ ['S']
    else if seconds ≠ 0 ∨ (hours = 0 ∧ minutes = 0 ∧ days = 0 ∧ weeks = 0 ∧ months = 0 ∧ years = 0) then
      intText seconds ++ ['S']
    else []
  let out := ['P'] ++ component years 'Y' ++ component months 'M' ++ component weeks 'W' ++ component days 'D' ++
    if hours ≠ 0 ∨ minutes ≠ 0 ∨ secStr ≠ [] then ['T'] ++ component hours 'H' ++ component minutes 'M' ++ secStr else []
  String.ofList (if out = ['P'] then ['P', 'T', '0', 'S'] else out)

/-- The seconds of the date-style form, with a fraction cut to nine digits. -/
def parseSeconds (sp : List Char) : Parse (Int64 × Int64) :=
  match splitFirst '.' sp with
  | some (whole, frac) => do
    let whole ← parsed (parseI64 whole)
    let padded ← sliceTo 9 (padZeros 9 frac)
    let nanos ← parsed (parseI64 padded)
    pure (whole, nanos)
  | none => do
    let whole ← parsed (parseI64 sp)
    pure (whole, 0)

/-- The date-style form, where the date part has its three components. -/
def parseDateStyle (years months days timePart : List Char) : Parse CypherDuration := do
  let years ← parsed (parseI64 years)
  let months ← parsed (parseI64 months)
  let days ← parsed (parseI64 days)
  let (hours, minutes, seconds, nanos) ←
    if timePart ≠ [] then do
      let tparts := timePart.splitOn ':'
      let h := (tparts.head?.bind parseI64).getD 0
      let m := (tparts[1]?.bind parseI64).getD 0
      let (sVal, nVal) ← match tparts[2]? with
        | some sp => parseSeconds sp
        | none => pure (0, 0)
      pure (h, m, sVal, nVal)
    else pure (0, 0, 0, 0)
  return { years, months, weeks := 0, days, hours, minutes, seconds, nanoseconds := nanos,
           iso := buildIso years months 0 days hours minutes seconds nanos }

/-- A number up to its unit, and the rest; zero and the whole text where there is none. -/
def takeComponent (unit : Char) (cur : List Char) : F64 × List Char × Bool :=
  match splitFirst unit cur with
  | some (numStr, rest) =>
    match F64.parse numStr with
    | some v => (v, rest, true)
    | none => (F64.ofNat 0, cur, false)
  | none => (F64.ofNat 0, cur, false)

/-- The duration of components with fractions: what is left of a component goes into the next smaller one. -/
def cascade (fYears fMonths fWeeks fDays fHours fMinutes fSeconds : F64) : CypherDuration :=
  let years := fYears.trunc.toI64
  let totalMonths := fMonths.add (fYears.fract.mul (F64.ofNat 12))
  let months := totalMonths.trunc.toI64
  let fracMonthsSecs := totalMonths.fract.mul (F64.ofNat 2629746)
  let fracWeeksDays := fWeeks.fract.mul (F64.ofNat 7)
  let weeksWhole := fWeeks.trunc.toI64
  let totalDays := (fDays.add fracWeeksDays).add (fracMonthsSecs.div (F64.ofNat 86400)).trunc
  let rem := fracMonthsSecs.rem (F64.ofNat 86400)
  let days := totalDays.trunc.toI64 + weeksWhole * 7
  let totalHours := (fHours.add (totalDays.fract.mul (F64.ofNat 24))).add (rem.div (F64.ofNat 3600)).trunc
  let rem2 := rem.rem (F64.ofNat 3600)
  let hours := totalHours.trunc.toI64
  let totalMinutes := (fMinutes.add (totalHours.fract.mul (F64.ofNat 60))).add (rem2.div (F64.ofNat 60)).trunc
  let rem3 := rem2.rem (F64.ofNat 60)
  let minutes := totalMinutes.trunc.toI64
  let totalSeconds := (fSeconds.add (totalMinutes.fract.mul (F64.ofNat 60))).add rem3
  let seconds := totalSeconds.trunc.toI64
  let nanos := (totalSeconds.fract.mul (F64.ofNat 1000000000)).round.toI64
  let totalNs := seconds * 1000000000 + nanos
  let seconds := totalNs / 1000000000
  let nanos := totalNs % 1000000000
  let totalS := hours * 3600 + minutes * 60 + seconds
  let hours := totalS / 3600
  let minutes := totalS % 3600 / 60
  let seconds := totalS % 60
  { years, months, weeks := 0, days, hours, minutes, seconds, nanoseconds := nanos,
    iso := buildIso years months 0 days hours minutes seconds nanos }

/-- The form of numbers with units, the time after a `T`. -/
def parseUnits (rest : List Char) : Option CypherDuration :=
  let (datePart, timePart) := (splitFirst 'T' rest).getD (rest, [])
  let (fYears, cur, y) := takeComponent 'Y' datePart
  let (fMonths, cur, mo) := takeComponent 'M' cur
  let (fWeeks, cur, w) := takeComponent 'W' cur
  let (fDays, cur, d) := takeComponent 'D' cur
  if cur ≠ [] then none
  else
    let (fHours, cur, h) := takeComponent 'H' timePart
    let (fMinutes, cur, mi) := takeComponent 'M' cur
    let (fSeconds, cur, s) := takeComponent 'S' cur
    if cur ≠ [] then none
    else if !(y || mo || w || d || h || mi || s) && datePart ≠ [] then none
    else some (cascade fYears fMonths fWeeks fDays fHours fMinutes fSeconds)

/-- The duration that a text is, if it is one. -/
def parse (s : List Char) : Parse CypherDuration :=
  match trim s with
  | 'P' :: rest =>
    let (datePart, timePart) := (splitFirst 'T' rest).getD (rest, [])
    if 4 < byteLen rest ∧ charAt 4 rest = some '-' then
      match datePart.splitOn '-' with
      | [years, months, days] => parseDateStyle years months days timePart
      | _ => parsed (parseUnits rest)
    else parsed (parseUnits rest)
  | _ => failure

end CypherDuration

/-- The duration of a text that starts with a `P`. -/
def tryParseDurationIso (s : String) : Parse CypherDuration :=
  if s.toList.head? = some 'P' then CypherDuration.parse s.toList else failure

end PgEddy
