import PgEddy.Comparison

/-!
# Comparing the other way round

What the parts of the comparisons do when their arguments, or the operator, are turned round.
-/

namespace PgEddy

open Binary64

/-- The operator for the arguments in the other order. -/
def CmpOp.flip : CmpOp → CmpOp
  | .eq => .eq
  | .neq => .neq
  | .lt => .gt
  | .gt => .lt
  | .le => .ge
  | .ge => .le

/-- The other truth value, and null of null. -/
def negated (o : Option Bool) : Option Bool := o.map fun b => !b

/-- There is one way to panic on reading. -/
theorem readJson_error {ch : Chrono} {v : Json} {f : Failure} (h : readJson ch v = .error f) : f = .panic .slice := by
  unfold readJson at h
  split at h
  · cases h
  · rename_i p _
    cases h
    cases p
    rfl

namespace Comparison

/-! ## Operators on one order -/

section

variable {α : Type} [LT α] [DecidableEq α] [DecidableLT α]

theorem cmpBy_flip (a : α) (op : CmpOp) (b : α) : cmpBy a op b = cmpBy b op.flip a := by
  cases op with
  | eq | neq => simp only [cmpBy, CmpOp.flip, eq_comm, ne_eq]
  | lt | gt => rfl
  | le | ge => simp only [cmpBy, CmpOp.flip, eq_comm]

theorem cmpBy_neq (a b : α) : cmpBy a .neq b = !cmpBy a .eq b := by simp only [cmpBy, ne_eq, decide_not]

end

theorem cmpMismatch_flip (op : CmpOp) : cmpMismatch op.flip = cmpMismatch op := by cases op <;> rfl

theorem floatCmp_flip (a : F64) (op : CmpOp) (b : F64) : floatCmp a op b = floatCmp b op.flip a := cmpBy_flip _ _ _

theorem ofOrdering_flip (op : CmpOp) (o : Ordering) : ofOrdering op.flip o.swap = ofOrdering op o := by
  cases op <;> cases o <;> rfl

theorem ofStrict_flip (op : CmpOp) (less : Bool) : ofStrict op.flip (!less) = ofStrict op less := by
  cases op <;> cases less <;> rfl

theorem ofLengths_flip (op : CmpOp) (hasNull : Bool) (m n : Nat) : ofLengths op hasNull m n = ofLengths op.flip hasNull n m := by
  have hlengths : compare n m = (compare m n).swap := Std.OrientedCmp.eq_swap
  unfold ofLengths
  rw [hlengths]
  cases compare m n with
  | lt => exact congrArg some (ofStrict_flip op true).symm
  | gt => exact congrArg some (ofStrict_flip op false).symm
  | eq => cases op <;> rfl

/-! ## Values that are not made of others -/

section

variable {ch : Chrono} (cal : Calendar ch)

theorem temporalCmp_swap (a b : TemporalValue ch) : temporalCmp cal b a = (temporalCmp cal a b).swap := by
  have hint : ∀ m n : Int, compare n m = (compare m n).swap := fun m n => Std.OrientedCmp.eq_swap
  have htext : compare b.iso a.iso = (compare a.iso b.iso).swap := Std.OrientedCmp.eq_swap
  unfold temporalCmp
  cases utcNs cal a with
  | none => cases utcNs cal b <;> exact htext
  | some m =>
    cases utcNs cal b with
    | none => exact htext
    | some n => cases a.date <;> cases b.date <;> exact hint _ _

theorem compareScalars_neq (a b : Value ch) : compareScalars cal a .neq b = negated (compareScalars cal a .eq b) := by
  unfold compareScalars
  split
  case h_1 | h_2 => rfl
  case h_3 | h_4 | h_5 =>
    split
    · rfl
    · exact congrArg some (cmpBy_neq _ _)
  case h_11 =>
    simp only [negated, ofOrdering, Option.map_some, ne_eq, decide_not]
  case h_17 => rfl
  all_goals exact congrArg some (cmpBy_neq _ _)

theorem compareScalars_flip (a : Value ch) (op : CmpOp) (b : Value ch) :
    compareScalars cal a op b = compareScalars cal b op.flip a := by
  have hneq : decide (op.flip = .neq) = decide (op = .neq) := by cases op <;> rfl
  cases a with
  | null => cases b <;> rfl
  | float x =>
    cases b with
    | float y =>
      simp only [compareScalars, Bool.or_comm y.isNan, hneq]
      rw [floatCmp_flip]
    | int y =>
      simp only [compareScalars, hneq]
      rw [floatCmp_flip]
    | null => rfl
    | node | edge | path | str | bool | json | temporal | duration => exact (cmpMismatch_flip op).symm
  | int x =>
    cases b with
    | float y =>
      simp only [compareScalars, hneq]
      rw [floatCmp_flip]
    | int y => exact congrArg some (cmpBy_flip _ _ _)
    | null => rfl
    | node | edge | path | str | bool | json | temporal | duration => exact (cmpMismatch_flip op).symm
  | str x =>
    cases b with
    | str | temporal | duration => exact congrArg some (cmpBy_flip _ _ _)
    | null => rfl
    | node | edge | path | int | float | bool | json => exact (cmpMismatch_flip op).symm
  | temporal x =>
    cases b with
    | temporal y =>
      simp only [compareScalars]
      rw [temporalCmp_swap cal x y, ofOrdering_flip]
    | str => exact congrArg some (cmpBy_flip _ _ _)
    | null => rfl
    | node | edge | path | int | float | bool | json | duration => exact (cmpMismatch_flip op).symm
  | duration x =>
    cases b with
    | str | duration => exact congrArg some (cmpBy_flip _ _ _)
    | null => rfl
    | node | edge | path | int | float | bool | json | temporal => exact (cmpMismatch_flip op).symm
  | bool x =>
    cases b with
    | bool => exact congrArg some (cmpBy_flip _ _ _)
    | null => rfl
    | node | edge | path | int | float | str | json | temporal | duration => exact (cmpMismatch_flip op).symm
  | node =>
    cases b with
    | node => exact congrArg some (cmpBy_flip _ _ _)
    | null => rfl
    | edge | path | int | float | str | bool | json | temporal | duration => exact (cmpMismatch_flip op).symm
  | edge =>
    cases b with
    | edge => exact congrArg some (cmpBy_flip _ _ _)
    | null => rfl
    | node | path | int | float | str | bool | json | temporal | duration => exact (cmpMismatch_flip op).symm
  | path | json =>
    cases b with
    | null => rfl
    | node | edge | path | int | float | str | bool | json | temporal | duration => exact (cmpMismatch_flip op).symm

theorem elemOrdering_swap (a b : Value ch) : elemOrdering b a = (elemOrdering a b).map Ordering.swap := by
  cases a with
  | float x =>
    cases b with
    | float y =>
      simp only [elemOrdering, Bool.or_comm y.isNan]
      split
      · rfl
      · exact congrArg some Std.OrientedCmp.eq_swap
    | int y =>
      simp only [elemOrdering]
      split
      · rfl
      · exact congrArg some Std.OrientedCmp.eq_swap
    | node | edge | path | str | bool | null | json | temporal | duration => rfl
  | int x =>
    cases b with
    | float y =>
      simp only [elemOrdering]
      split
      · rfl
      · exact congrArg some Std.OrientedCmp.eq_swap
    | int y => exact congrArg some Std.OrientedCmp.eq_swap
    | node | edge | path | str | bool | null | json | temporal | duration => rfl
  | str x =>
    cases b with
    | str y => exact congrArg some Std.OrientedCmp.eq_swap
    | node | edge | path | int | float | bool | null | json | temporal | duration => rfl
  | bool x =>
    cases b with
    | bool y => exact congrArg some Std.OrientedCmp.eq_swap
    | node | edge | path | int | float | str | null | json | temporal | duration => rfl
  | node | edge | path | null | json | temporal | duration => cases b <;> rfl

/-! ## Values made of others -/

/-- Both values are paths, or lists, or maps. -/
def madeAlike : Value ch → Value ch → Bool
  | .path .., .path .. => true
  | .json (.array _), .json (.array _) => true
  | .json (.object _), .json (.object _) => true
  | _, _ => false

theorem madeAlike_comm (a b : Value ch) : madeAlike a b = madeAlike b a := by
  unfold madeAlike
  split
  · rfl
  · rfl
  · rfl
  · rename_i hpath harray hobject
    split
    · rename_i bn br an ar
      exact (hpath _ _ _ _ rfl rfl).elim
    · exact (harray _ _ rfl rfl).elim
    · exact (hobject _ _ rfl rfl).elim
    · rfl

theorem madeAlike_cases {a b : Value ch} (h : madeAlike a b = true) :
    (∃ an ar bn br, a = .path an ar ∧ b = .path bn br) ∨ (∃ xs ys, a = .json (.array xs) ∧ b = .json (.array ys)) ∨
      ∃ fields entries, a = .json (.object fields) ∧ b = .json (.object entries) := by
  unfold madeAlike at h
  split at h
  · exact .inl ⟨_, _, _, _, rfl, rfl⟩
  · exact .inr (.inl ⟨_, _, rfl, rfl⟩)
  · exact .inr (.inr ⟨_, _, rfl, rfl⟩)
  · cases h

theorem compareValues_of_not_madeAlike {a b : Value ch} (op : CmpOp) (h : madeAlike a b = false) :
    compareValues cal a op b = .ok (compareScalars cal a op b) := by
  unfold compareValues
  split
  · cases h
  · cases h
  · cases h
  · rfl

/-! ## Lists in an order -/

/-- The loop over two lists turned round. -/
theorem orderLoop_flip (op : CmpOp) (xs : List Json) :
    ∀ (hasNull : Bool) (ys : List Json), @orderLoop ch op hasNull xs ys = @orderLoop ch op.flip hasNull ys xs := by
  induction xs with
  | nil =>
    intro hasNull ys
    cases ys <;> exact congrArg Except.ok (ofLengths_flip op hasNull _ _)
  | cons x xs ih =>
    intro hasNull ys
    cases ys with
    | nil => exact congrArg Except.ok (ofLengths_flip op hasNull _ _)
    | cons y ys =>
      rw [orderLoop, orderLoop]
      cases hx : readJson ch x with
      | error f =>
        cases hy : readJson ch y with
        | error g => rw [readJson_error hx, readJson_error hy]; rfl
        | ok bv => rfl
      | ok av =>
        cases hy : readJson ch y with
        | error g => rfl
        | ok bv =>
          simp only [bind, Except.bind, elemOrdering_swap av bv]
          cases elemOrdering av bv with
          | none => exact ih true ys
          | some o =>
            cases o with
            | lt => exact congrArg (fun b => Except.ok (some b)) (ofStrict_flip op true).symm
            | gt => exact congrArg (fun b => Except.ok (some b)) (ofStrict_flip op false).symm
            | eq => exact ih hasNull ys

/-! ## The order of all values -/

/-- The order of two values of one place in the order of kinds. -/
def within (a b : Value ch) : Ordering :=
  match a, b with
  | .int x, .int y => compare x y
  | .float x, .float y => if x.isNan || y.isNan then .eq else compare x.rank y.rank
  | .int x, .float y => if y.isNan then .eq else compare (F64.ofInt x.toInt).rank y.rank
  | .float x, .int y => if x.isNan then .eq else compare x.rank (F64.ofInt y.toInt).rank
  | .str x, .str y => compare x y
  | .bool x, .bool y => compare x.toNat y.toNat
  | .temporal x, .temporal y => temporalCmp cal x y
  | .duration x, .duration y => compare x.totalNs y.totalNs
  | _, _ => .eq

theorem then_eq_self (o : Ordering) : o.then .eq = o := by cases o <;> rfl

theorem typeRank_float (x : F64) : typeRank (.float x : Value ch) = if x.isNan then 8 else 7 := by rw [typeRank]

/-- No number comes after the numbers. -/
theorem nan_then (n : Bool) (o : Ordering) : (if n then .gt else o) = (compare (if n then 8 else 7) 7).then (if n then .eq else o) := by
  cases n <;> rfl

theorem then_nan (n : Bool) (o : Ordering) : (if n then .lt else o) = (compare 7 (if n then 8 else 7)).then (if n then .eq else o) := by
  cases n <;> rfl

theorem nan_then_nan (m n : Bool) (o : Ordering) : (if m && n then .eq else if m then .gt else if n then .lt else o) =
    (compare (if m then 8 else 7) (if n then 8 else 7)).then (if m || n then .eq else o) := by
  cases m <;> cases n <;> rfl

theorem scalarOrdering_floats (x y : F64) : scalarOrdering cal (.float x) (.float y) =
    (compare (typeRank (.float x : Value ch)) (typeRank (.float y : Value ch))).then (within cal (.float x) (.float y)) := by
  rw [scalarOrdering, within, typeRank_float, typeRank_float]
  exact nan_then_nan x.isNan y.isNan (compare x.rank y.rank)

theorem scalarOrdering_float_int (x : F64) (y : Int64) : scalarOrdering cal (.float x) (.int y) =
    (compare (typeRank (.float x : Value ch)) 7).then (within cal (.float x) (.int y)) := by
  rw [scalarOrdering, within, typeRank_float]
  exact nan_then x.isNan (compare x.rank (F64.ofInt y.toInt).rank)

theorem scalarOrdering_int_float (x : Int64) (y : F64) : scalarOrdering cal (.int x) (.float y) =
    (compare 7 (typeRank (.float y : Value ch))).then (within cal (.int x) (.float y)) := by
  rw [scalarOrdering, within, typeRank_float]
  exact then_nan y.isNan (compare (F64.ofInt x.toInt).rank y.rank)

theorem scalarOrdering_float (x : F64) (b : Value ch) :
    scalarOrdering cal (.float x) b = (compare (typeRank (.float x : Value ch)) (typeRank b)).then (within cal (.float x) b) := by
  cases b with
  | float y => exact scalarOrdering_floats cal x y
  | int y => exact scalarOrdering_float_int cal x y
  | null =>
    rw [typeRank_float]
    cases x.isNan <;> rfl
  | node | edge | path | str | bool | json | temporal | duration => simp only [scalarOrdering, within, then_eq_self]

theorem scalarOrdering_null (b : Value ch) :
    scalarOrdering cal .null b = (compare (typeRank (.null : Value ch)) (typeRank b)).then (within cal .null b) := by
  cases b with
  | float y =>
    rw [typeRank_float]
    cases y.isNan <;> rfl
  | json v => cases v <;> rfl
  | node | edge | path | int | str | bool | null | temporal | duration => rfl

theorem scalarOrdering_json (v : Json) (b : Value ch) :
    scalarOrdering cal (.json v) b = (compare (typeRank (.json v : Value ch)) (typeRank b)).then (within cal (.json v) b) := by
  cases b with
  | null => cases v <;> rfl
  | node | edge | path | int | float | str | bool | json | temporal | duration => exact (then_eq_self _).symm

/-- Values are in the order of their kinds, and then in that of their kind. -/
theorem scalarOrdering_eq (a b : Value ch) :
    scalarOrdering cal a b = (compare (typeRank a) (typeRank b)).then (within cal a b) := by
  cases a with
  | float x => exact scalarOrdering_float cal x b
  | null => exact scalarOrdering_null cal b
  | json v => exact scalarOrdering_json cal v b
  | int x =>
    cases b with
    | float y => exact scalarOrdering_int_float cal x y
    | node | edge | path | int | str | bool | null | json | temporal | duration => first | rfl | exact (then_eq_self _).symm
  | node | edge | path =>
    cases b with
    | node | edge | path | int | float | str | bool | json | temporal | duration => exact (then_eq_self _).symm
    | null => rfl
  | str | bool | temporal | duration =>
    cases b with
    | node | edge | path | int | float | str | bool | null | json | temporal | duration => first | rfl | exact (then_eq_self _).symm

theorem compare_swapped {α : Type} [Ord α] [Std.OrientedOrd α] (x y : α) : compare y x = (compare x y).swap :=
  Std.OrientedCmp.eq_swap

theorem within_swap (a b : Value ch) : within cal b a = (within cal a b).swap := by
  cases a with
  | float x =>
    cases b with
    | float y =>
      simp only [within, Bool.or_comm y.isNan]
      split
      · rfl
      · exact compare_swapped x.rank y.rank
    | int y =>
      simp only [within]
      split
      · rfl
      · exact compare_swapped x.rank _
    | node | edge | path | str | bool | null | json | temporal | duration => rfl
  | int x =>
    cases b with
    | float y =>
      simp only [within]
      split
      · rfl
      · exact compare_swapped _ y.rank
    | int y => exact compare_swapped x y
    | node | edge | path | str | bool | null | json | temporal | duration => rfl
  | str x =>
    cases b with
    | str y => exact compare_swapped x y
    | node | edge | path | int | float | bool | null | json | temporal | duration => rfl
  | bool x =>
    cases b with
    | bool y => exact compare_swapped x.toNat y.toNat
    | node | edge | path | int | float | str | null | json | temporal | duration => rfl
  | temporal x =>
    cases b with
    | temporal y => exact temporalCmp_swap cal x y
    | node | edge | path | int | float | str | bool | null | json | duration => rfl
  | duration x =>
    cases b with
    | duration y => exact compare_swapped x.totalNs y.totalNs
    | node | edge | path | int | float | str | bool | null | json | temporal => rfl
  | node | edge | path | null | json => cases b <;> rfl

theorem scalarOrdering_swap (a b : Value ch) : scalarOrdering cal b a = (scalarOrdering cal a b).swap := by
  have hrank : compare (typeRank b) (typeRank a) = (compare (typeRank a) (typeRank b)).swap := Std.OrientedCmp.eq_swap
  rw [scalarOrdering_eq, scalarOrdering_eq, within_swap cal a b, hrank, Ordering.swap_then]

/-- Two items that are read, and whose values are compared. -/
theorem read_swap (x y : Json) :
    (do
      let bv ← readJson ch y
      let av ← readJson ch x
      return scalarOrdering cal bv av : Exec Ordering) =
    (do
      let av ← readJson ch x
      let bv ← readJson ch y
      return scalarOrdering cal av bv : Exec Ordering).map Ordering.swap := by
  cases hx : readJson ch x with
  | error f =>
    cases hy : readJson ch y with
    | error g => rw [readJson_error hx, readJson_error hy]; rfl
    | ok bv => rfl
  | ok av =>
    cases hy : readJson ch y with
    | error g => rfl
    | ok bv => exact congrArg Except.ok (scalarOrdering_swap cal av bv)

theorem listOrdering_swap {xs : List Json} (h : ∀ x ∈ xs, ∀ y, itemOrdering cal y x = (itemOrdering cal x y).map Ordering.swap) :
    ∀ ys, listOrdering cal ys xs = (listOrdering cal xs ys).map Ordering.swap := by
  have hlengths : ∀ m n : Nat, compare n m = (compare m n).swap := fun m n => Std.OrientedCmp.eq_swap
  induction xs with
  | nil =>
    intro ys
    cases ys <;> simp only [listOrdering] <;> exact congrArg Except.ok (hlengths _ _)
  | cons x xs ih =>
    intro ys
    cases ys with
    | nil =>
      simp only [listOrdering]
      exact congrArg Except.ok (hlengths _ _)
    | cons y ys =>
      rw [listOrdering, listOrdering, h x List.mem_cons_self y]
      cases itemOrdering cal x y with
      | error f => rfl
      | ok o =>
        cases o with
        | lt => rfl
        | gt => rfl
        | eq => exact ih (fun u hu => h u (List.mem_cons_of_mem _ hu)) ys

theorem itemOrdering_swap (x : Json) : ∀ y, itemOrdering cal y x = (itemOrdering cal x y).map Ordering.swap := by
  induction x using Json.tree_induction with
  | null | bool | number | string | object =>
    intro y
    cases y <;> simpa only [itemOrdering] using read_swap cal _ _
  | array xs ih =>
    intro y
    cases y with
    | array ys =>
      rw [itemOrdering, itemOrdering, Bool.or_comm (isPathArray ys)]
      split
      · exact read_swap cal _ _
      · exact listOrdering_swap cal ih ys
    | null | bool | number | string | object => simpa only [itemOrdering] using read_swap cal _ _

/-- The order is the other way round when its arguments are. -/
theorem valueOrdering_swap (a b : Value ch) : valueOrdering cal b a = (valueOrdering cal a b).map Ordering.swap := by
  by_cases hlists : ∃ xs ys, a = .json (.array xs) ∧ b = .json (.array ys)
  · obtain ⟨xs, ys, rfl, rfl⟩ := hlists
    exact listOrdering_swap cal (fun x _ => itemOrdering_swap cal x) ys
  · rw [valueOrdering, valueOrdering]
    · exact congrArg Except.ok (scalarOrdering_swap cal a b)
    · exact fun xs ys ha hb => hlists ⟨xs, ys, ha, hb⟩
    · exact fun xs ys hb ha => hlists ⟨ys, xs, ha, hb⟩

end

end Comparison

end PgEddy
