import PgEddy.Eval

/-!
# Comparing and ordering values

There are two comparisons of values. The operators compare with an answer that may be null (`compareValues`), and `ORDER BY`
puts any two values in an order (`valueOrdering`). Both read the items of lists, and the fields of maps, from their JSON.
-/

namespace PgEddy

open Binary64

/-- The functions of the calendar library that take dates and times apart. -/
structure Calendar (ch : Chrono) where
  numDaysFromCe : ch.Date → Int
  hour : ch.Time → Nat
  minute : ch.Time → Nat
  second : ch.Time → Nat
  nanosecond : ch.Time → Nat

/-! ## Temporal values and durations -/

section

variable {ch : Chrono} (cal : Calendar ch)

def dayNs : Int := 86400000000000

/-- The nanoseconds of a time since midnight. -/
def timeToNs (t : ch.Time) : Int :=
  cal.hour t * 3600000000000 + cal.minute t * 60000000000 + cal.second t * 1000000000 + cal.nanosecond t

/-- The time of day in nanoseconds less the offset, of a value with both. -/
def utcNs (tv : TemporalValue ch) : Option Int :=
  match tv.offsetSecs, tv.time with
  | some off, some t => some (timeToNs cal t - off.toInt * 1000000000)
  | _, _ => none

/-- Values with a time and an offset are compared by the instant, those of them without a date by the time of day, and all others
by their texts. -/
def temporalCmp (a b : TemporalValue ch) : Ordering :=
  match utcNs cal a, utcNs cal b with
  | some aUtcNs, some bUtcNs =>
    match a.date, b.date with
    | some aDate, some bDate =>
      compare (cal.numDaysFromCe aDate * dayNs + aUtcNs) (cal.numDaysFromCe bDate * dayNs + bUtcNs)
    | _, _ => compare (aUtcNs % dayNs) (bUtcNs % dayNs)
  | _, _ => compare a.iso b.iso

end

namespace CypherDuration

/-- The seconds of the time part, in machine arithmetic. -/
def totalSeconds (d : CypherDuration) : Int64 := d.hours * 3600 + d.minutes * 60 + d.seconds

/-- The nanoseconds by which durations are ordered: the years and the weeks are left out. -/
def totalNs (d : CypherDuration) : Int :=
  d.months.toInt * 2629746000000000 + d.days.toInt * 86400000000000 + d.hours.toInt * 3600000000000 +
    d.minutes.toInt * 60000000000 + d.seconds.toInt * 1000000000 + d.nanoseconds.toInt

end CypherDuration

namespace Comparison

variable {ch : Chrono} (cal : Calendar ch)

/-! ## The operators -/

/-- The operator on values that were put in an order. -/
def ofOrdering (op : CmpOp) (o : Ordering) : Bool :=
  match op with
  | .eq => o = .eq
  | .neq => o ≠ .eq
  | .lt => o = .lt
  | .le => o ≠ .gt
  | .gt => o = .gt
  | .ge => o ≠ .lt

/-- The comparison of values that are not made of others. -/
def compareScalars (left : Value ch) (op : CmpOp) (right : Value ch) : Option Bool :=
  match left, right with
  | .null, _ => none
  | _, .null => none
  | .float a, .float b => if a.isNan || b.isNan then some (op = .neq) else some (floatCmp a op b)
  | .int a, .float b => if b.isNan then some (op = .neq) else some (floatCmp (.ofInt a.toInt) op b)
  | .float a, .int b => if a.isNan then some (op = .neq) else some (floatCmp a op (.ofInt b.toInt))
  | .int a, .int b => some (cmpBy a op b)
  | .str a, .str b => some (cmpBy a op b)
  | .bool a, .bool b => some (cmpBy a.toNat op b.toNat)
  | .node a .., .node b .. => some (cmpBy a op b)
  | .edge a .., .edge b .. => some (cmpBy a op b)
  | .temporal a, .temporal b => some (ofOrdering op (temporalCmp cal a b))
  | .temporal a, .str b => some (cmpBy a.iso op b)
  | .str a, .temporal b => some (cmpBy a op b.iso)
  | .duration a, .duration b => some (cmpBy a.totalSeconds op b.totalSeconds)
  | .duration a, .str b => some (cmpBy a.iso op b)
  | .str a, .duration b => some (cmpBy a op b.iso)
  | _, _ => cmpMismatch op

/-- The order of two items of lists, as far as the comparison of lists tells: of numbers, strings and booleans. -/
def elemOrdering (a b : Value ch) : Option Ordering :=
  match a, b with
  | .int x, .int y => some (compare x y)
  | .float x, .float y => if x.isNan || y.isNan then none else some (compare x.rank y.rank)
  | .int x, .float y => if y.isNan then none else some (compare (F64.ofInt x.toInt).rank y.rank)
  | .float x, .int y => if x.isNan then none else some (compare x.rank (F64.ofInt y.toInt).rank)
  | .str x, .str y => some (compare x y)
  | .bool x, .bool y => some (compare x.toNat y.toNat)
  | _, _ => none

/-- The answer once an item of a list is found to be less, or greater, than the one of the other list. -/
def ofStrict (op : CmpOp) (less : Bool) : Bool :=
  if less then op = .lt || op = .le || op = .neq else op = .gt || op = .ge || op = .neq

/-- The answer once no items are left that could decide. -/
def ofLengths (op : CmpOp) (hasNull : Bool) (m n : Nat) : Option Bool :=
  match compare m n with
  | .gt => some (ofStrict op false)
  | .lt => some (ofStrict op true)
  | .eq => if hasNull then none else some (op = .eq || op = .le || op = .ge)

/-- `<`, `<=`, `>` and `>=` on lists: the first items that are told apart decide, and then the lengths. -/
def orderLoop (op : CmpOp) (hasNull : Bool) : List Json → List Json → Exec (Option Bool)
  | x :: xs, y :: ys => do
    let av ← readJson ch x
    let bv ← readJson ch y
    match elemOrdering av bv with
    | none => orderLoop op true xs ys
    | some .eq => orderLoop op hasNull xs ys
    | some .lt => return some (ofStrict op true)
    | some .gt => return some (ofStrict op false)
  | xs, ys => .ok (ofLengths op hasNull xs.length ys.length)

mutual

/-- `compare_values` with `=` on the values of two items. -/
def equalItems : Json → Json → Exec (Option Bool)
  | .array xs, .array ys =>
    if isPathArray xs && isPathArray ys then
      -- The nodes are compared first, then the relationships.
      if xs.length ≠ ys.length then .ok (some false)
      else do
        if ← equalTurns true xs ys then return some (← equalTurns false xs ys) else return some false
    else if isPathArray xs || isPathArray ys then .ok (some false)
    else if xs.length ≠ ys.length then .ok (some false)
    else equalLoop .eq false xs ys
  | .object a, .object b =>
    match (objectValue a : Value ch), (objectValue b : Value ch) with
    | .json _, .json _ => if a.length ≠ b.length then .ok (some false) else equalFields .eq false a b
    | av, bv => .ok (compareScalars cal av .eq bv)
  | x, y => do
    let av ← readJson ch x
    let bv ← readJson ch y
    return compareScalars cal av .eq bv

/-- `=` and `<>` on lists of one length, item by item. -/
def equalLoop (op : CmpOp) (hasNull : Bool) : List Json → List Json → Exec (Option Bool)
  | x :: xs, y :: ys => do
    match ← equalItems x y with
    | none => equalLoop op true xs ys
    | some false => return some (op = .neq)
    | some true => equalLoop op hasNull xs ys
  | _, _ => .ok (if hasNull then none else some (op = .eq))

/-- `=` and `<>` on maps of one size, by the fields of the first. -/
def equalFields (op : CmpOp) (hasNull : Bool) : List (String × Json) → List (String × Json) → Exec (Option Bool)
  | (k, x) :: fields, b =>
    match b.lookup k with
    | none => .ok (some (op = .neq))
    | some y => do
      match ← equalItems x y with
      | none => equalFields op true fields b
      | some false => return some (op = .neq)
      | some true => equalFields op hasNull fields b
  | [], _ => .ok (if hasNull then none else some (op = .eq))

/-- Every other item of one path is equal to that of the other, from the first or from the second on. -/
def equalTurns : Bool → List Json → List Json → Exec Bool
  | true, x :: xs, y :: ys => do
    if (← equalItems x y) = some true then equalTurns false xs ys else return false
  | false, _ :: xs, _ :: ys => equalTurns true xs ys
  | _, _, _ => return true

end

/-- `compare_lists`. -/
def compareLists (a : List Json) (op : CmpOp) (b : List Json) : Exec (Option Bool) :=
  match op with
  | .eq | .neq => if a.length ≠ b.length then .ok (some (op = .neq)) else equalLoop cal op false a b
  | op => @orderLoop ch op false a b

/-- The comparison of maps. They have no order. -/
def compareMaps (a : List (String × Json)) (op : CmpOp) (b : List (String × Json)) : Exec (Option Bool) :=
  match op with
  | .eq | .neq => if a.length ≠ b.length then .ok (some (op = .neq)) else equalFields cal op false a b
  | _ => .ok none

mutual

/-- `values_equal` on two items. -/
def itemsEqual : Json → Json → Exec Bool
  | .array xs, .array ys =>
    if isPathArray xs || isPathArray ys then do return (← equalItems cal (.array xs) (.array ys)) = some true
    else if xs.length ≠ ys.length then .ok false
    else allItemsEqual xs ys
  | x, y => do return (← equalItems cal x y) = some true

def allItemsEqual : List Json → List Json → Exec Bool
  | x :: xs, y :: ys => do
    if ← itemsEqual x y then allItemsEqual xs ys else return false
  | _, _ => return true

end

mutual

/-- `compare_values`. -/
def compareValues : Value ch → CmpOp → Value ch → Exec (Option Bool)
  | .path an ar, op, .path bn br =>
    match op with
    | .eq | .neq =>
      if an.length ≠ bn.length ∨ ar.length ≠ br.length then .ok (some (op = .neq))
      else do
        if !(← allValuesEqual an bn) then return some (op = .neq)
        else if !(← allValuesEqual ar br) then return some (op = .neq)
        else return some (op = .eq)
    | _ => .ok none
  | .json (.array a), op, .json (.array b) => compareLists cal a op b
  | .json (.object a), op, .json (.object b) => compareMaps cal a op b
  | left, op, right => .ok (compareScalars cal left op right)

/-- `values_equal` on the elements of two paths, pair by pair. -/
def allValuesEqual : List (Value ch) → List (Value ch) → Exec Bool
  | .json (.array xs) :: as, .json (.array ys) :: bs => do
    if xs.length = ys.length then
      if ← allItemsEqual cal xs ys then allValuesEqual as bs else return false
    else return false
  | a :: as, b :: bs => do
    if (← compareValues a .eq b) = some true then allValuesEqual as bs else return false
  | _, _ => return true

end

/-- `values_equal`: lists are equal item by item, other values by the comparison. -/
def valuesEqual (a b : Value ch) : Exec Bool :=
  match a, b with
  | .json (.array xs), .json (.array ys) => if xs.length = ys.length then allItemsEqual cal xs ys else .ok false
  | a, b => do return (← compareValues cal a .eq b) = some true

theorem allValuesEqual_cons (a b : Value ch) (as bs : List (Value ch)) :
    allValuesEqual cal (a :: as) (b :: bs) = do if ← valuesEqual cal a b then allValuesEqual cal as bs else return false := by
  unfold valuesEqual
  split
  · rename_i xs ys
    rw [allValuesEqual]
    split <;> rfl
  · rename_i hlists
    rw [allValuesEqual]
    · cases compareValues cal a .eq b with
      | error f => rfl
      | ok r => simp [pure, Except.pure, bind, Except.bind]
    · exact hlists

/-! ## The order -/

/-- The place of a kind of values in the order of kinds. -/
def typeRank : Value ch → Nat
  | .json (.object _) => 0
  | .node .. => 1
  | .edge .. => 2
  | .json (.array _) => 3
  | .path .. => 4
  | .str _ => 5
  | .bool _ => 6
  | .float f => if f.isNan then 8 else 7
  | .int _ => 7
  | .null => 9
  | _ => 5

/-- The order of values other than two lists. -/
def scalarOrdering (a b : Value ch) : Ordering :=
  match a, b with
  | .null, .null => .eq
  | .null, _ => .gt
  | _, .null => .lt
  | .int x, .int y => compare x y
  | .float x, .float y =>
    if x.isNan && y.isNan then .eq
    else if x.isNan then .gt
    else if y.isNan then .lt
    else compare x.rank y.rank
  | .int x, .float y => if y.isNan then .lt else compare (F64.ofInt x.toInt).rank y.rank
  | .float x, .int y => if x.isNan then .gt else compare x.rank (F64.ofInt y.toInt).rank
  | .str x, .str y => compare x y
  | .bool x, .bool y => compare x.toNat y.toNat
  | .temporal x, .temporal y => temporalCmp cal x y
  | .duration x, .duration y => compare x.totalNs y.totalNs
  | a, b => compare (typeRank a) (typeRank b)

mutual

/-- `value_ordering` on the values of two items. -/
def itemOrdering : Json → Json → Exec Ordering
  | .array xs, .array ys =>
    if isPathArray xs || isPathArray ys then do
      let av ← readJson ch (.array xs)
      let bv ← readJson ch (.array ys)
      return scalarOrdering cal av bv
    else listOrdering xs ys
  | x, y => do
    let av ← readJson ch x
    let bv ← readJson ch y
    return scalarOrdering cal av bv

/-- `list_ordering`: the first items that are not equal decide, and then the lengths. -/
def listOrdering : List Json → List Json → Exec Ordering
  | x :: xs, y :: ys => do
    match ← itemOrdering x y with
    | .eq => listOrdering xs ys
    | o => return o
  | xs, ys => return compare xs.length ys.length

end

/-- `value_ordering`. -/
def valueOrdering (a b : Value ch) : Exec Ordering :=
  match a, b with
  | .json (.array xa), .json (.array ya) => listOrdering cal xa ya
  | a, b => .ok (scalarOrdering cal a b)

end Comparison

end PgEddy
