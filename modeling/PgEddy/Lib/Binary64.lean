import Mathlib.Algebra.Order.Ring.Int
import Mathlib.Data.Nat.Log

/-!
# Binary floating point numbers of 64 bits, by their bits

A number is its sign, exponent and fraction, as they stand in memory. The bit patterns that are no number are one value.
-/

namespace Binary64

/-- The bit pattern is no number. -/
def nanBits (bits : UInt64) : Bool := bits &&& 0x7FF0000000000000 == 0x7FF0000000000000 && bits &&& 0x000FFFFFFFFFFFFF != 0

/-- The bit pattern of every value that is no number. -/
def quietNan : UInt64 := 0x7FF8000000000000

/-- A number of 64 bits. -/
structure F64 where
  bits : UInt64
  canonical : nanBits bits = true → bits = quietNan
  deriving DecidableEq

namespace F64

/-- The number a bit pattern stands for. -/
def ofBits (bits : UInt64) : F64 :=
  if h : nanBits bits then ⟨quietNan, fun _ => rfl⟩ else ⟨bits, fun h' => absurd h' h⟩

def nan : F64 := ofBits quietNan

def infinity : F64 := ofBits 0x7FF0000000000000

def negInfinity : F64 := ofBits 0xFFF0000000000000

def isNan (f : F64) : Bool := nanBits f.bits

/-- Neither an infinity nor no number: some bit of the exponent is zero. -/
def isFinite (f : F64) : Bool := f.bits &&& 0x7FF0000000000000 != 0x7FF0000000000000

@[simp] theorem ofBits_bits (f : F64) : ofBits f.bits = f := by
  unfold ofBits
  split
  · rename_i h
    have hb := f.canonical h
    cases f
    simp only at hb
    simp only [hb]
  · rfl

theorem eq_nan_of_isNan {f : F64} (h : f.isNan = true) : f = nan := by
  have hb := f.canonical h
  cases f
  simp only at hb
  subst hb
  rfl

/-! ## Rounding

Every finite number is a count of units of 2 ^ -1074. -/

/-- The bits below the sign. -/
def magnitude (f : F64) : Nat := f.bits.toNat % 2 ^ 63

def isNegative (f : F64) : Bool := 2 ^ 63 ≤ f.bits.toNat

/-- The place of a number in the order. Both zeros have the same. -/
def rank (f : F64) : Int := if f.isNegative then -f.magnitude else f.magnitude

/-- The magnitude of both infinities. -/
def infMagnitude : Nat := 0x7FF0000000000000

/-- The units of a finite number, without its sign. -/
def units (f : F64) : Nat :=
  let e := f.magnitude / 2 ^ 52
  let m := f.magnitude % 2 ^ 52
  if e = 0 then m else (2 ^ 52 + m) * 2 ^ (e - 1)

/-- The units of one. -/
def oneUnits : Nat := 2 ^ 1074

def ofMagnitude (negative : Bool) (m : Nat) : F64 :=
  ofBits (UInt64.ofNat (min m infMagnitude + if negative then 2 ^ 63 else 0))

/-- The magnitude nearest to a ratio of units, ties to the even one. A significand of 53 bits and the exponent it needs are
the magnitude when the exponent is added at its place, also where rounding carries into it. -/
def nearestMagnitude (num den : Nat) : Nat :=
  let s := Nat.log2 (num / den) - 52
  let m := num / (den * 2 ^ s)
  let r := num % (den * 2 ^ s)
  let half := den * 2 ^ s
  s * 2 ^ 52 + if 2 * r > half ∨ (2 * r = half ∧ m % 2 = 1) then m + 1 else m

/-- The number nearest to a ratio of units. -/
def nearest (negative : Bool) (num den : Nat) : F64 := ofMagnitude negative (nearestMagnitude num den)

/-- The nearest number to a natural number. -/
def ofNat (n : Nat) : F64 := nearest false (n * oneUnits) 1

/-- The nearest number to an integer. -/
def ofInt (i : Int) : F64 := nearest (i < 0) (i.natAbs * oneUnits) 1

/-! ## Arithmetic -/

/-- The number with its sign bit turned. -/
def neg (f : F64) : F64 := ofBits (f.bits ^^^ 0x8000000000000000)

/-- The number without its sign. -/
def abs (f : F64) : F64 := ofBits (f.bits &&& 0x7FFFFFFFFFFFFFFF)

/-- The units of a finite number with its sign. -/
def signedUnits (f : F64) : Int := if f.isNegative then -f.units else f.units

def add (a b : F64) : F64 :=
  if a.isNan || b.isNan then nan
  else if a.isFinite && b.isFinite then
    let sum := a.signedUnits + b.signedUnits
    nearest (if sum = 0 then a.isNegative && b.isNegative else sum < 0) sum.natAbs 1
  else if a.isFinite then b
  else if b.isFinite || a.isNegative == b.isNegative then a
  else nan

def sub (a b : F64) : F64 := add a b.neg

def mul (a b : F64) : F64 :=
  let negative := a.isNegative != b.isNegative
  if a.isNan || b.isNan then nan
  else if a.isFinite && b.isFinite then nearest negative (a.units * b.units) oneUnits
  else if a.magnitude = 0 || b.magnitude = 0 then nan
  else ofMagnitude negative infMagnitude

def div (a b : F64) : F64 :=
  let negative := a.isNegative != b.isNegative
  if a.isNan || b.isNan then nan
  else if a.isFinite then
    if b.isFinite then
      if b.magnitude = 0 then if a.magnitude = 0 then nan else ofMagnitude negative infMagnitude
      else nearest negative (a.units * oneUnits) b.units
    else ofMagnitude negative 0
  else if b.isFinite then ofMagnitude negative infMagnitude
  else nan

/-- The remainder of a division that is cut off toward zero, with the sign of the dividend. -/
def rem (a b : F64) : F64 :=
  if a.isNan || b.isNan || !a.isFinite || b.magnitude = 0 then nan
  else if b.isFinite then nearest a.isNegative (a.units % b.units) 1
  else a

/-- The integer part. -/
def trunc (f : F64) : F64 :=
  if f.isFinite then nearest f.isNegative (f.units / oneUnits * oneUnits) 1 else f

/-- What is left without the integer part. -/
def fract (f : F64) : F64 := sub f f.trunc

/-- The nearest integer, halves away from zero. -/
def round (f : F64) : F64 :=
  if f.isFinite then nearest f.isNegative ((2 * f.units + oneUnits) / (2 * oneUnits) * oneUnits) 1 else f

/-- The integer part as a signed integer of 64 bits, the nearest one where it is out of range. -/
def toI64 (f : F64) : Int64 :=
  if f.isNan then 0
  else if f.isFinite then
    let n := f.units / oneUnits
    if f.isNegative then Int64.ofInt (-(min n (2 ^ 63) : Nat)) else Int64.ofInt (min n (2 ^ 63 - 1) : Nat)
  else if f.isNegative then Int64.minValue
  else Int64.maxValue

/-! ## Numbers in text -/

/-- Digits at the start of a text: their number, how many they are, and the rest. -/
def takeDigits : List Char → Nat → Nat → Nat × Nat × List Char
  | [], n, len => (n, len, [])
  | c :: cs, n, len => if c.isDigit then takeDigits cs (n * 10 + (c.toNat - 48)) (len + 1) else (n, len, c :: cs)

/-- A sign at the start of a text, and the rest. -/
def takeSign : List Char → Bool × List Char
  | '-' :: cs => (true, cs)
  | '+' :: cs => (false, cs)
  | cs => (false, cs)

/-- The nearest number to `digits` times ten to the power of `exp`, of `len` digits. Far outside the range it is an infinity
or zero. -/
def ofDecimal (negative : Bool) (digits len : Nat) (exp : Int) : F64 :=
  if digits = 0 then ofMagnitude negative 0
  else if 400 < exp then ofMagnitude negative infMagnitude
  else if len + exp < -400 then ofMagnitude negative 0
  else if 0 ≤ exp then nearest negative (digits * 10 ^ exp.toNat * oneUnits) 1
  else nearest negative (digits * oneUnits) (10 ^ exp.natAbs)

/-- The exponent at the end of a number, if what is left is one. -/
def parseExponent : List Char → Option Int
  | [] => some 0
  | c :: cs =>
    if c = 'e' ∨ c = 'E' then
      let (negative, cs) := takeSign cs
      let (n, len, rest) := takeDigits cs 0 0
      if len = 0 ∨ rest ≠ [] then none else some (if negative then -n else n)
    else none

/-- The number a text is: digits with an optional point and exponent, or one of the names of the other values. -/
def parse (text : List Char) : Option F64 :=
  let (negative, cs) := takeSign text
  let name := cs.map Char.toLower
  if name = "nan".toList then some nan
  else if name = "inf".toList ∨ name = "infinity".toList then some (ofMagnitude negative infMagnitude)
  else
    let (whole, wholeLen, rest) := takeDigits cs 0 0
    let (digits, fracLen, rest) :=
      match rest with
      | '.' :: rest => takeDigits rest whole 0
      | _ => (whole, 0, rest)
    if wholeLen + fracLen = 0 then none
    else (parseExponent rest).map fun exp => ofDecimal negative digits (wholeLen + fracLen) (exp - fracLen)

end F64

end Binary64
