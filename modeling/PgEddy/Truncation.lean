import PgEddy.TemporalParts

/-!
# Truncating dates and local datetimes

`date.truncate` and `localdatetime.truncate`: the start of the period that a value lies in, and the overrides on top of it.
-/

namespace PgEddy

open Gregorian

variable {ch : Chrono} (N : NaiveLib ch)

/-! ## Overrides -/

/-- The fields of an object of JSON. -/
abbrev Overrides := List (String × Json)

def mapI64 (m : Overrides) (key : String) : Option Int64 :=
  match m.lookup key with
  | some (.number n) => n.asI64
  | _ => none

def mapI (m : Overrides) (key : String) : Option Int32 := (mapI64 m key).map Int64.toInt32

/-- The conversions of machine integers that lose bits. -/
def i32AsU32 (v : Int32) : Nat := v.toUInt32.toNat

def i32AsU8 (v : Int32) : Nat := v.toUInt32.toUInt8.toNat

def i64AsU32 (v : Int64) : Nat := v.toUInt64.toUInt32.toNat

/-- The days from Monday to a day of the week. -/
def isoWeekday (d : Nat) : Option Nat := if 1 ≤ d ∧ d ≤ 7 then some (d - 1) else none

/-- The unsigned machine integer of a sum or a product. -/
def Build.u32 (build : Build) (exact : Nat) : Exec Nat :=
  match build with
  | .debug => if exact < 2 ^ 32 then .ok exact else .error .overflow
  | .release => .ok (exact % 2 ^ 32)

def okOr {α : Type} (o : Option α) (err : Failure) : Exec α := o.elim (.error err) .ok

def invalidUnit (function unit : String) : Failure := .error (function ++ ".truncate(): invalid unit '" ++ unit ++ "'")

/-- The first day from a date on that is a day of the week. -/
def nextWeekday (base : ch.Date) (dow : Int32) : Option ch.Date :=
  let wd := (isoWeekday (i32AsU8 dow)).getD 0
  N.addDays base (((wd : Int) - N.weekday base + 7).tmod 7)

/-! ## Dates -/

/-- The first day of the period that a date lies in. -/
def truncateDateBase (unit : String) (d : ch.Date) : Option ch.Date :=
  match unit with
  | "millennium" => N.fromYmdOpt ((N.year d).tdiv 1000 * 1000) 1 1
  | "century" => N.fromYmdOpt ((N.year d).tdiv 100 * 100) 1 1
  | "decade" => N.fromYmdOpt ((N.year d).tdiv 10 * 10) 1 1
  | "year" => N.fromYmdOpt (N.year d) 1 1
  | "weekYear" => N.fromIsoMondayOpt (N.isoYear d) 1
  | "quarter" => N.fromYmdOpt (N.year d) ((N.month d - 1) / 3 * 3 + 1) 1
  | "month" => N.fromYmdOpt (N.year d) (N.month d) 1
  | "week" => N.addDays d (-(N.weekday d : Int))
  | "day" => some d
  | _ => none

def dateOverride (base : ch.Date) (overrides : Overrides) : Option ch.Date :=
  match mapI overrides "dayOfWeek", mapI overrides "day" with
  | some dow, _ => nextWeekday N base dow
  | none, some day => N.fromYmdOpt (N.year base) (N.month base) (i32AsU32 day)
  | none, none => some base

def dateValue (d : ch.Date) : TemporalValue ch := ⟨.date, String.ofList (N.formatDate d), some d, none, none, none⟩

def truncateDate (unit : String) (input : TemporalValue ch) (overrides : Overrides) : Exec (TemporalValue ch) := do
  let d ← okOr input.date (.error "truncate: input has no date component")
  let base ← okOr (truncateDateBase N unit d) (invalidUnit "date" unit)
  let result ← okOr (dateOverride N base overrides) (invalidUnit "date" unit)
  return dateValue N result

/-! ## Local datetimes -/

/-- `from_hms_nano_opt` and `unwrap`. -/
def hmsNano (ch : Chrono) (h m s ns : Nat) : Exec ch.Time := okOr (ch.fromHmsNano h m s ns) .unwrap

/-- The start of the period that a date and a time lie in. -/
def truncateLocaldatetimeBase (unit : String) (input : TemporalValue ch) (d : ch.Date) (t : ch.Time) : Exec (ch.Date × ch.Time) :=
  match unit with
  | "millennium" | "century" | "decade" | "year" | "weekYear" | "quarter" | "month" | "week" => do
    let td ← truncateDate N unit input []
    let date ← okOr td.date .unwrap
    return (date, ← hmsNano ch 0 0 0 0)
  | "day" => do return (d, ← hmsNano ch 0 0 0 0)
  | "hour" => do return (d, ← hmsNano ch (N.hour t) 0 0 0)
  | "minute" => do return (d, ← hmsNano ch (N.hour t) (N.minute t) 0 0)
  | "second" => do return (d, ← hmsNano ch (N.hour t) (N.minute t) (N.second t) 0)
  | "millisecond" => do
    return (d, ← hmsNano ch (N.hour t) (N.minute t) (N.second t) (N.nanosecond t / 1000000 * 1000000))
  | "microsecond" => do
    return (d, ← hmsNano ch (N.hour t) (N.minute t) (N.second t) (N.nanosecond t / 1000 * 1000))
  | _ => .error (invalidUnit "localdatetime" unit)

def localdatetimeDateOverride (base : ch.Date) (overrides : Overrides) : Option ch.Date :=
  match mapI overrides "dayOfWeek", mapI overrides "day", mapI overrides "month" with
  | some dow, _, _ => nextWeekday N base dow
  | none, some day, month =>
    N.fromYmdOpt (N.year base) ((month.map i32AsU32).getD (N.month base)) (i32AsU32 day)
  | none, none, some month => N.fromYmdOpt (N.year base) (i32AsU32 month) (N.day base)
  | none, none, none => some base

/-- The nanoseconds of an override are added to those of the base, without its leap second. -/
def nanosOverride (build : Build) (baseNanos : Nat) (overrides : Overrides) : Exec Nat :=
  match mapI64 overrides "nanosecond", mapI64 overrides "microsecond", mapI64 overrides "millisecond" with
  | some v, _, _ => build.u32 (baseNanos + i64AsU32 v)
  | none, some v, _ => do build.u32 (baseNanos + (← build.u32 (i64AsU32 v * 1000)))
  | none, none, some v => do build.u32 (baseNanos + (← build.u32 (i64AsU32 v * 1000000)))
  | none, none, none => .ok baseNanos

def localdatetimeValue (d : ch.Date) (t : ch.Time) : TemporalValue ch :=
  ⟨.localDateTime, String.ofList (formatLocaldatetime N d t), some d, some t, none, none⟩

def truncateLocaldatetime (build : Build) (unit : String) (input : TemporalValue ch) (overrides : Overrides) :
    Exec (TemporalValue ch) := do
  let d ← okOr input.date (.error "truncate: input has no date component")
  let t ← input.time.elim (hmsNano ch 0 0 0 0) .ok
  let (baseDate, baseTime) ← truncateLocaldatetimeBase N unit input d t
  let rd ← okOr (localdatetimeDateOverride N baseDate overrides) (invalidUnit "localdatetime" unit)
  let h := ((mapI overrides "hour").map i32AsU32).getD (N.hour baseTime)
  let mi := ((mapI overrides "minute").map i32AsU32).getD (N.minute baseTime)
  let s := ((mapI overrides "second").map i32AsU32).getD (N.second baseTime)
  let ns ← nanosOverride build (N.nanosecond baseTime % 1000000000) overrides
  let rt ← okOr (ch.fromHmsNano h mi s ns) (invalidUnit "localdatetime" unit)
  return localdatetimeValue N rd rt

end PgEddy
