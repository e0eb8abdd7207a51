import PgEddy.AggregateEval
import PgEddy.Lib.Signed64

/-!
# Arithmetic

The operators on numbers, strings, lists and temporal values, and the functions `abs` and `sum`. Integers are machine
integers: where a result leaves their range, a debug build panics and a release build wraps around, and a quotient or a
remainder panics in both.
-/

namespace PgEddy

open Binary64 Signed64

/-- How the program is built. -/
inductive Build where
  | debug
  | release
  deriving DecidableEq

/-- The machine integer of a sum, a difference, a product, a negative or an absolute value. -/
def Build.int (build : Build) (exact : Int) : Exec Int64 :=
  match build with
  | .debug => if Fits exact then .ok (.ofInt exact) else .error .overflow
  | .release => .ok (.ofInt exact)

/-- The machine integer of a quotient or a remainder: for the least integer and minus one every build panics. -/
def divInt (exact : Int → Int → Int) (a b : Int64) : Exec Int64 :=
  if a = Int64.minValue ∧ b = -1 then .error .overflow else .ok (.ofInt (exact a.toInt b.toInt))

/-- What is computed elsewhere: the arithmetic of temporal values and durations, and `powf`. -/
structure MathLib (ch : Chrono) where
  temporalAddDuration : TemporalValue ch → CypherDuration → Exec (TemporalValue ch)
  temporalSubDuration : TemporalValue ch → CypherDuration → Exec (TemporalValue ch)
  durationAdd : CypherDuration → CypherDuration → Exec CypherDuration
  durationSub : CypherDuration → CypherDuration → Exec CypherDuration
  durationMul : CypherDuration → Int64 → Exec CypherDuration
  durationDiv : CypherDuration → Int64 → Exec CypherDuration
  durationMulF : CypherDuration → F64 → Exec CypherDuration
  powf : F64 → F64 → F64

/-- What leaves its first argument as it is. -/
def MathLib.bare (ch : Chrono) : MathLib ch where
  temporalAddDuration tv _ := .ok tv
  temporalSubDuration tv _ := .ok tv
  durationAdd a _ := .ok a
  durationSub a _ := .ok a
  durationMul d _ := .ok d
  durationDiv d _ := .ok d
  durationMulF d _ := .ok d
  powf a _ := a

section

variable {ch : Chrono} (build : Build) (M : MathLib ch)

/-! ## Strings that are temporal values -/

/-- The answer of a reader of text. -/
def readText {α : Type} (p : Parse α) : Exec (Option α) :=
  match p.run with
  | .ok o => .ok o
  | .error p => .error (.panic p)

/-- A string that is the text of a duration or of a temporal value stands for it. -/
def coerceTemporalStr (v : Value ch) : Exec (Value ch) :=
  match v with
  | .str s => do
    match ← readText (tryParseDurationIso s) with
    | some dur => return .duration dur
    | none =>
      match ← readText (tryParseTemporalIso ch s) with
      | some tv => return .temporal tv
      | none => return .str s
  | v => .ok v

/-! ## Operators -/

/-- The operators on integers. A quotient and a remainder by zero are null. -/
def intArith (a : Int64) (op : ArithOp) (b : Int64) : Exec (Value ch) :=
  match op with
  | .add => return .int (← build.int (a.toInt + b.toInt))
  | .sub => return .int (← build.int (a.toInt - b.toInt))
  | .mul => return .int (← build.int (a.toInt * b.toInt))
  | .div => if b = 0 then .ok .null else return .int (← divInt Int.tdiv a b)
  | .mod => if b = 0 then .ok .null else return .int (← divInt Int.tmod a b)
  | .pow => .ok (.float (M.powf (.ofInt a.toInt) (.ofInt b.toInt)))

/-- The operators on floats. A remainder by zero is null, and so is a quotient unless zero is divided. -/
def floatArith (a : F64) (op : ArithOp) (b : F64) : Value ch :=
  match op with
  | .add => .float (a.add b)
  | .sub => .float (a.sub b)
  | .mul => .float (a.mul b)
  | .div => if b.magnitude = 0 then if a.magnitude = 0 then .float .nan else .null else .float (a.div b)
  | .mod => if b.magnitude = 0 then .null else .float (a.rem b)
  | .pow => .float (M.powf a b)

/-- The operators on values, after the strings among them were read. -/
def arithCoerced (left : Value ch) (op : ArithOp) (right : Value ch) : Exec (Value ch) :=
  match left, op, right with
  | .int a, op, .int b => intArith build M a op b
  | .float a, op, .float b => .ok (floatArith M a op b)
  | .int a, op, .float b => .ok (floatArith M (.ofInt a.toInt) op b)
  | .float a, op, .int b => .ok (floatArith M a op (.ofInt b.toInt))
  | .str a, .add, .str b => .ok (.str (a ++ b))
  | .json (.array a), .add, .json (.array b) => .ok (.json (.array (a ++ b)))
  | .json (.array a), .add, right => .ok (.json (.array (a ++ [right.toJson])))
  | left, .add, .json (.array b) => .ok (.json (.array (left.toJson :: b)))
  | .temporal tv, .add, .duration dur => return .temporal (← M.temporalAddDuration tv dur)
  | .temporal tv, .sub, .duration dur => return .temporal (← M.temporalSubDuration tv dur)
  | .duration a, .add, .duration b => return .duration (← M.durationAdd a b)
  | .duration a, .sub, .duration b => return .duration (← M.durationSub a b)
  | .duration d, .mul, .int n => return .duration (← M.durationMul d n)
  | .duration d, .div, .int n => if n = 0 then .ok .null else return .duration (← M.durationDiv d n)
  | .duration d, .mul, .float f => return .duration (← M.durationMulF d f)
  | .duration d, .div, .float f =>
    if f.magnitude = 0 then .ok .null else return .duration (← M.durationMulF d ((F64.ofNat 1).div f))
  | .int n, .mul, .duration d => return .duration (← M.durationMul d n)
  | .float f, .mul, .duration d => return .duration (← M.durationMulF d f)
  | .duration dur, .add, .temporal tv => return .temporal (← M.temporalAddDuration tv dur)
  | _, _, _ => .ok .null

/-- `left op right`. -/
def evalArith (left : Value ch) (op : ArithOp) (right : Value ch) : Exec (Value ch) := do
  let left ← coerceTemporalStr left
  let right ← coerceTemporalStr right
  arithCoerced build M left op right

/-- Unary minus, outside and inside of what is evaluated over a group. -/
def negate (v : Value ch) : Exec (Value ch) :=
  match v with
  | .int i => return .int (← build.int (-i.toInt))
  | .float f => .ok (.float f.neg)
  | _ => .ok .null

/-- The function `abs` on its argument. -/
def abs (v : Value ch) : Exec (Value ch) :=
  match v with
  | .int i => return .int (← build.int i.toInt.natAbs)
  | .float f => .ok (.float f.abs)
  | _ => .ok .null

end

/-! ## The sum over a group -/

section

variable (E : Engine) (build : Build)

/-- The integers and the floats that were summed, and whether there was a float. -/
structure Sums where
  sumI : Int64
  sumF : F64
  isFloat : Bool

/-- The sums after the value of one more row. -/
def Sums.add (sums : Sums) (v : Value E.ch) : Exec Sums :=
  match v with
  | .int i => return { sums with sumI := ← build.int (sums.sumI.toInt + i.toInt) }
  | .float f => .ok { sums with sumF := sums.sumF.add f, isFloat := true }
  | _ => .ok sums

/-- The value that the sums stand for. -/
def Sums.total (sums : Sums) : Value E.ch :=
  if sums.isFloat then .float (sums.sumF.add (.ofInt sums.sumI.toInt)) else .int sums.sumI

/-- The aggregate `sum`. A row whose argument cannot be evaluated counts as null. -/
def sumAggregate (args : List Expr) (groupRows : List (Row E.ch)) (params : Params) : Exec (Value E.ch) :=
  match args with
  | [] => .error (.error "sum() requires an argument")
  | arg :: _ => do
    let sums ← groupRows.foldlM (fun sums row => do
      let v ← orNull E (evalExpr E arg row params)
      sums.add E build v) (⟨0, .ofNat 0, false⟩ : Sums)
    return sums.total E

end

end PgEddy
