import PgEddy.Arithmetic
import PgEddy.Naive

/-!
# Texts, properties and epochs of temporal values

How a date and a time are printed, what the properties of a temporal value are, and the constructors that count from 1970.
-/

namespace PgEddy

open Text Binary64

variable {ch : Chrono} (N : NaiveLib ch)

/-! ## Texts -/

/-- The time without zero seconds, and with its fraction without zeros at the end. -/
def formatLocaltime (t : ch.Time) : List Char :=
  let ns := N.nanosecond t
  if ns = 0 ∧ N.second t = 0 then N.formatHourMinute t
  else if ns = 0 then N.formatTime t
  else N.formatTime t ++ ['.'] ++ trimEndMatches '0' (padNumber 9 ns)

def formatTimeWithOffset (t : ch.Time) (offsetSecs : Int32) : List Char := formatLocaltime N t ++ formatOffset offsetSecs

def formatLocaldatetime (d : ch.Date) (t : ch.Time) : List Char := N.formatDate d ++ ['T'] ++ formatLocaltime N t

def formatDatetime (d : ch.Date) (t : ch.Time) (offsetSecs : Int32) (tzName : Option String) : List Char :=
  let base := N.formatDate d ++ ['T'] ++ formatLocaltime N t ++ formatOffset offsetSecs
  match tzName with
  | some tz => base ++ ['['] ++ tz.toList ++ [']']
  | none => base

/-! ## Properties -/

/-- The seconds since 1970. The years of the calendar keep them in the range of machine integers. -/
def temporalEpochSeconds (tv : TemporalValue ch) : Option Int :=
  match tv.kind with
  | .date => do
    let d ← tv.date
    let midnight ← ch.fromHmsNano 0 0 0 0
    return N.timestamp d midnight
  | .localTime => do return N.secondsOfDay (← tv.time)
  | .time => do return N.secondsOfDay (← tv.time) - (tv.offsetSecs.getD 0).toInt
  | .localDateTime => do return N.timestamp (← tv.date) (← tv.time)
  | .dateTime => do return N.timestamp (← tv.date) (← tv.time) - (tv.offsetSecs.getD 0).toInt

/-- The offset as hours and minutes. -/
def offsetText (off : Int32) : String :=
  let abs := off.toInt.natAbs
  String.ofList ((if off < 0 then '-' else '+') :: (padNumber 2 (abs / 3600) ++ [':'] ++ padNumber 2 (abs % 3600 / 60)))

def intProperty (o : Option Int) : Value ch := (o.map fun i => Value.int (Int64.ofInt i)).getD .null

/-- The days since the start of the quarter, the first one counted. -/
def dayOfQuarter (d : ch.Date) : Option Int :=
  (N.fromYmdOpt (N.year d) ((N.month d - 1) / 3 * 3 + 1) 1).map fun start => N.numDaysFromCe d - N.numDaysFromCe start + 1

def temporalGetProperty (tv : TemporalValue ch) (key : String) : Value ch :=
  match key with
  | "year" => intProperty (tv.date.map N.year)
  | "month" => intProperty (tv.date.map fun d => (N.month d : Int))
  | "day" => intProperty (tv.date.map fun d => (N.day d : Int))
  | "hour" => intProperty (tv.time.map fun t => (N.hour t : Int))
  | "minute" => intProperty (tv.time.map fun t => (N.minute t : Int))
  | "second" => intProperty (tv.time.map fun t => (N.second t : Int))
  | "millisecond" => intProperty (tv.time.map fun t => (N.nanosecond t / 1000000 : Nat))
  | "microsecond" => intProperty (tv.time.map fun t => (N.nanosecond t / 1000 : Nat))
  | "nanosecond" | "nanoseconds" | "nanosecondsOfSecond" => intProperty (tv.time.map fun t => (N.nanosecond t : Int))
  | "epochSeconds" => intProperty (temporalEpochSeconds N tv)
  | "epochMillis" =>
    intProperty ((temporalEpochSeconds N tv).map fun s => s * 1000 + (tv.time.map fun t => N.nanosecond t / 1000000).getD 0)
  | "timezone" =>
    match tv.tzName, tv.offsetSecs with
    | some name, _ => .str name
    | none, some off => .str (offsetText off)
    | none, none => .null
  | "offset" => (tv.offsetSecs.map fun off => Value.str (offsetText off)).getD .null
  | "offsetMinutes" => intProperty (tv.offsetSecs.map fun off => off.toInt.tdiv 60)
  | "offsetSeconds" => intProperty (tv.offsetSecs.map Int32.toInt)
  | "quarter" => intProperty (tv.date.map fun d => ((N.month d - 1) / 3 + 1 : Nat))
  | "dayOfWeek" | "weekDay" => intProperty (tv.date.map fun d => (N.weekday d + 1 : Nat))
  | "dayOfQuarter" => intProperty (tv.date.bind (dayOfQuarter N))
  | "week" => intProperty (tv.date.map fun d => (N.isoWeek d : Int))
  | "weekYear" => intProperty (tv.date.map N.isoYear)
  | "ordinalDay" => intProperty (tv.date.map fun d => (N.ordinal d : Int))
  | _ => .null

/-! ## Counting from 1970 -/

/-- The conversion of a machine integer to 32 bits without a sign. -/
def asU32 (z : Int) : Nat := (z % 2 ^ 32).toNat

/-- The `DateTime` of a count of seconds since 1970 and of nanoseconds behind it. -/
def epochDatetime (function : String) (epochSecs : Int) (remNanos : Nat) : Exec (Value ch) :=
  match N.fromTimestamp epochSecs remNanos with
  | none => .error (.error (function ++ "(): invalid epoch value"))
  | some (date, time) =>
    .ok (.temporal ⟨.dateTime, String.ofList (formatDatetime N date time 0 none), some date, some time, some 0, none⟩)

/-- An argument that is an integer, or a float that is cut to one. -/
def epochArg (v : Value ch) : Option Int64 :=
  match v with
  | .int i => some i
  | .float f => some f.toI64
  | _ => none

/-- `datetime.fromepoch(seconds, nanoseconds)`. The first argument stands for the name before the point. -/
def fromEpoch (build : Build) (args : List (Exec (Value ch))) : Option (Exec (Value ch)) :=
  match args with
  | [_, secs, nanos] => some do
    let secsVal ← secs
    let nanosVal ← nanos
    let secs ←
      match epochArg secsVal with
      | some secs => .ok secs
      | none => .error (.error "fromepoch(): seconds must be numeric")
    let nanos := (epochArg nanosVal).getD 0
    let scaled ← build.int (secs.toInt * 1000000000)
    let totalNanos ← build.int (scaled.toInt + nanos.toInt)
    epochDatetime N "fromepoch" (totalNanos.toInt.tdiv 1000000000) (asU32 (totalNanos.toInt.tmod 1000000000))
  | _ => none

/-- `datetime.fromepochmillis(milliseconds)`. -/
def fromEpochMillis (args : List (Exec (Value ch))) : Option (Exec (Value ch)) :=
  match args with
  | _ :: millis :: _ => some do
    let millisVal ← millis
    let millis ←
      match epochArg millisVal with
      | some millis => .ok millis
      | none => .error (.error "fromepochmillis(): millis must be numeric")
    epochDatetime N "fromepochmillis" (millis.toInt.tdiv 1000) (asU32 (millis.toInt.tmod 1000 * 1000000))
  | _ => none

end PgEddy
