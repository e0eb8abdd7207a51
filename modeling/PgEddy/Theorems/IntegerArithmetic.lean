import PgEddy.Arithmetic

/-!
# Integer arithmetic

`+`, `-`, `*`, `/`, `%`, unary minus, `abs` and `sum` on integers give the exact integer, null or an error, in both builds, just
where no result leaves the range of a machine integer. Where one does, a release build gives another integer and a debug
build panics; the quotient and the remainder of the least integer by minus one panic in both.
-/

namespace PgEddy

open Binary64 Signed64

section

variable {ch : Chrono} (build : Build) (M : MathLib ch)

/-- The integer itself, or an error or null. -/
def ExactOrRefused (exact : Int) (r : Exec (Value ch)) : Prop :=
  (∃ i : Int64, r = .ok (.int i) ∧ i.toInt = exact) ∨ r = .ok .null ∨ ∃ message, r = .error (.error message)

/-- The integer that an operator stands for. A quotient is cut off toward zero. -/
def ArithOp.exact (a : Int) (op : ArithOp) (b : Int) : Int :=
  match op with
  | .add => a + b
  | .sub => a - b
  | .mul => a * b
  | .div => a.tdiv b
  | .mod => a.tmod b
  | .pow => a ^ b.toNat

/-- The result of the operator is in range; for a division, it is not the least integer that is divided by minus one. -/
def ArithOp.InRange (a : Int64) (op : ArithOp) (b : Int64) : Prop :=
  match op with
  | .div | .mod => ¬(a = Int64.minValue ∧ b = -1)
  | op => Fits (op.exact a.toInt b.toInt)

namespace ArithmeticAux

/-! ## One operation -/

theorem exactOrRefused_int {exact : Int} {i : Int64} :
    ExactOrRefused exact (.ok (.int i) : Exec (Value ch)) ↔ i.toInt = exact := by
  constructor
  · rintro (⟨j, hj, hexact⟩ | hnull | ⟨message, herror⟩)
    · cases hj
      exact hexact
    · cases hnull
    · cases herror
  · intro h
    exact .inl ⟨i, rfl, h⟩

theorem not_exactOrRefused_overflow {exact : Int} : ¬ExactOrRefused exact (.error .overflow : Exec (Value ch)) := by
  rintro (⟨i, hi, -⟩ | hnull | ⟨message, herror⟩)
  · cases hi
  · cases hnull
  · cases herror

/-- In either build an operation is exact just where its result is in range. -/
theorem exact_int_iff (exact : Int) :
    ExactOrRefused exact (do return .int (← build.int exact) : Exec (Value ch)) ↔ Fits exact := by
  cases build with
  | debug =>
    by_cases hfits : Fits exact
    · have hrun : (do return .int (← Build.debug.int exact) : Exec (Value ch)) = .ok (.int (.ofInt exact)) := by
        rw [Build.int, if_pos hfits]
        rfl
      rw [hrun, exactOrRefused_int, toInt_ofInt_iff]
    · have hrun : (do return .int (← Build.debug.int exact) : Exec (Value ch)) = .error .overflow := by
        rw [Build.int, if_neg hfits]
        rfl
      rw [hrun]
      exact iff_of_false not_exactOrRefused_overflow hfits
  | release => exact exactOrRefused_int.trans toInt_ofInt_iff

/-- A division is exact unless the least integer is divided by minus one. -/
theorem exact_divInt_iff {exact : Int → Int → Int} {a b : Int64}
    (hfits : ¬(a = Int64.minValue ∧ b = -1) → Fits (exact a.toInt b.toInt)) :
    ExactOrRefused (exact a.toInt b.toInt) (do return .int (← divInt exact a b) : Exec (Value ch)) ↔
      ¬(a = Int64.minValue ∧ b = -1) := by
  by_cases hleast : a = Int64.minValue ∧ b = -1
  · have hrun : (do return .int (← divInt exact a b) : Exec (Value ch)) = .error .overflow := by
      rw [divInt, if_pos hleast]
      rfl
    rw [hrun]
    exact iff_of_false not_exactOrRefused_overflow (fun h => h hleast)
  · have hrun : (do return .int (← divInt exact a b) : Exec (Value ch)) = .ok (.int (.ofInt (exact a.toInt b.toInt))) := by
      rw [divInt, if_neg hleast]
      rfl
    rw [hrun, exactOrRefused_int, toInt_ofInt_iff]
    exact iff_of_true (hfits hleast) hleast

theorem evalArith_int (a : Int64) (op : ArithOp) (b : Int64) :
    evalArith build M (.int a) op (.int b) = intArith build M a op b := rfl

/-- A division by zero is null, and zero is not minus one. -/
theorem exact_of_div_zero {exact : Int} {a b : Int64} (hb : b = 0) :
    ExactOrRefused exact (.ok .null : Exec (Value ch)) ↔ ¬(a = Int64.minValue ∧ b = -1) := by
  refine iff_of_true (.inr (.inl rfl)) ?_
  rintro ⟨-, hone⟩
  rw [hb] at hone
  cases hone

theorem intArith_iff (a : Int64) {op : ArithOp} (hop : op ≠ .pow) (b : Int64) :
    ExactOrRefused (op.exact a.toInt b.toInt) (intArith build M a op b) ↔ op.InRange a b := by
  cases op with
  | add | sub | mul => exact exact_int_iff build _
  | div =>
    rw [intArith]
    split
    · rename_i hzero
      exact exact_of_div_zero hzero
    · exact exact_divInt_iff fits_tdiv
  | mod =>
    rw [intArith]
    split
    · rename_i hzero
      exact exact_of_div_zero hzero
    · exact exact_divInt_iff fun _ => fits_tmod a b
  | pow => exact absurd rfl hop

end ArithmeticAux

end

/-! ## Sums -/

section

variable (E : Engine)

/-- The integers among the values of the rows. -/
def intsOf {ch : Chrono} (vals : List (Value ch)) : List Int :=
  vals.filterMap fun
    | .int i => some i.toInt
    | _ => none

/-- The floats among them. -/
def floatsOf {ch : Chrono} (vals : List (Value ch)) : List F64 :=
  vals.filterMap fun
    | .float f => some f
    | _ => none

@[simp] theorem intsOf_int {ch : Chrono} (i : Int64) (vals : List (Value ch)) : intsOf (.int i :: vals) = i.toInt :: intsOf vals := rfl

@[simp] theorem floatsOf_float {ch : Chrono} (f : F64) (vals : List (Value ch)) : floatsOf (.float f :: vals) = f :: floatsOf vals := rfl

/-- The sum of the values: an exact integer, or with floats among them the float of all floats and of the exact integer. -/
def SumOf {ch : Chrono} (vals : List (Value ch)) (r : Exec (Value ch)) : Prop :=
  if floatsOf vals = [] then ExactOrRefused (intsOf vals).sum r
  else r = .ok (.float (((floatsOf vals).foldl F64.add (.ofNat 0)).add (.ofInt (intsOf vals).sum)))

/-- The sum of the integers up to any row is in range. -/
def PartialSumsFit {ch : Chrono} (vals : List (Value ch)) : Prop := ∀ sums, sums <+: intsOf vals → Fits sums.sum

namespace ArithmeticAux

/-- From the integer on, the sum up to any of the integers is in range. -/
def FitFrom (start : Int) (is : List Int) : Prop := ∀ sums, sums <+: is → Fits (start + sums.sum)

theorem fitFrom_cons {start i : Int} {is : List Int} (hstart : Fits start) :
    FitFrom start (i :: is) ↔ FitFrom (start + i) is := by
  constructor
  · intro h sums hsums
    have hfits := h (i :: sums) (List.cons_prefix_cons.mpr ⟨rfl, hsums⟩)
    rw [List.sum_cons, ← Int.add_assoc] at hfits
    exact hfits
  · intro h sums hsums
    cases sums with
    | nil => simpa using hstart
    | cons j sums =>
      obtain ⟨rfl, hrest⟩ := List.cons_prefix_cons.mp hsums
      have hfits := h sums hrest
      rw [List.sum_cons, ← Int.add_assoc]
      exact hfits

theorem FitFrom.start {start : Int} {is : List Int} (h : FitFrom start is) : Fits start := by
  have hfits := h [] List.nil_prefix
  simpa using hfits

/-- Where no sum leaves the range, either build gives the exact sum of the integers. -/
theorem sums_of_fits (build : Build) {vals : List (Value E.ch)} :
    ∀ {s : Sums}, FitFrom s.sumI.toInt (intsOf vals) → ∃ t : Sums, vals.foldlM (fun s v => s.add E build v) s = .ok t ∧
      t.sumI.toInt = s.sumI.toInt + (intsOf vals).sum ∧ t.sumF = (floatsOf vals).foldl F64.add s.sumF ∧
      t.isFloat = (s.isFloat || !(floatsOf vals).isEmpty) := by
  induction vals with
  | nil =>
    intro s _
    exact ⟨s, rfl, by simp [intsOf], rfl, by simp [floatsOf]⟩
  | cons v vals ih =>
    intro s hfits
    rw [List.foldlM_cons]
    cases v with
    | int i =>
      have hhead := (fitFrom_cons (fits_toInt s.sumI)).mp hfits
      have hnext : (Int64.ofInt (s.sumI.toInt + i.toInt)).toInt = s.sumI.toInt + i.toInt := toInt_ofInt_of_fits hhead.start
      have hadd : s.add E build (.int i) = .ok { s with sumI := .ofInt (s.sumI.toInt + i.toInt) } := by
        cases build with
        | debug =>
          rw [Sums.add, Build.int, if_pos hhead.start]
          rfl
        | release => rfl
      have hrest : FitFrom ({ s with sumI := .ofInt (s.sumI.toInt + i.toInt) } : Sums).sumI.toInt (intsOf vals) := by
        rw [hnext]
        exact hhead
      obtain ⟨t, ht, hsum, hfloats, hfloat⟩ := ih hrest
      refine ⟨t, by rw [hadd]; exact ht, ?_, hfloats, hfloat⟩
      rw [hsum, hnext]
      rw [intsOf_int, List.sum_cons, Int.add_assoc]
    | float f =>
      obtain ⟨t, ht, hsum, hfloats, hfloat⟩ := ih (s := { s with sumF := s.sumF.add f, isFloat := true }) hfits
      exact ⟨t, ht, hsum, hfloats, by rw [hfloat, floatsOf_float]; simp⟩
    | node | edge | path | str | bool | null | json | temporal | duration => exact ih hfits

/-- In a debug build the sum panics, unless no sum leaves the range. -/
theorem debug_sums {vals : List (Value E.ch)} :
    ∀ {s : Sums}, FitFrom s.sumI.toInt (intsOf vals) ∨
      vals.foldlM (fun s v => s.add E .debug v) s = .error .overflow := by
  induction vals with
  | nil =>
    intro s
    refine .inl fun sums hsums => ?_
    have hempty : sums = [] := List.prefix_nil.mp hsums
    subst hempty
    simpa using fits_toInt s.sumI
  | cons v vals ih =>
    intro s
    rw [List.foldlM_cons]
    cases v with
    | int i =>
      by_cases hfits : Fits (s.sumI.toInt + i.toInt)
      · have hadd : s.add E .debug (.int i) = .ok { s with sumI := .ofInt (s.sumI.toInt + i.toInt) } := by
          rw [Sums.add, Build.int, if_pos hfits]
          rfl
        rw [hadd]
        rcases ih (s := { s with sumI := .ofInt (s.sumI.toInt + i.toInt) }) with hrest | hpanic
        · left
          change FitFrom _ (i.toInt :: intsOf vals)
          rw [fitFrom_cons (fits_toInt s.sumI)]
          rw [toInt_ofInt_of_fits hfits] at hrest
          exact hrest
        · exact .inr hpanic
      · right
        rw [Sums.add, Build.int, if_neg hfits]
        rfl
    | float f => exact ih (s := { s with sumF := s.sumF.add f, isFloat := true })
    | node | edge | path | str | bool | null | json | temporal | duration => exact ih

/-- The rows give their values, and the values are summed. -/
theorem sumAggregate_eq (build : Build) {arg : Expr} {args : List Expr} {groupRows : List (Row E.ch)} {params : Params}
    {vals : List (Value E.ch)} (hvals : List.Forall₂ (fun row v => orNull E (evalExpr E arg row params) = .ok v) groupRows vals) :
    sumAggregate E build (arg :: args) groupRows params = (do
      let sums ← vals.foldlM (fun s v => s.add E build v) (⟨0, .ofNat 0, false⟩ : Sums)
      return sums.total E) := by
  have hfold : ∀ s : Sums, groupRows.foldlM (fun sums row => do
      let v ← orNull E (evalExpr E arg row params)
      sums.add E build v) s = vals.foldlM (fun s v => s.add E build v) s := by
    induction hvals with
    | nil => exact fun s => rfl
    | cons hv _ ih =>
      intro s
      rw [List.foldlM_cons, List.foldlM_cons, hv]
      change (Sums.add E build s _ >>= _) = _
      refine bind_congr fun t => ?_
      exact ih t
  rw [sumAggregate, hfold]

/-- The sum is exact in both builds just where the sum up to any row is in range. -/
theorem sumAggregate_iff {arg : Expr} {args : List Expr} {groupRows : List (Row E.ch)} {params : Params}
    {vals : List (Value E.ch)} (hvals : List.Forall₂ (fun row v => orNull E (evalExpr E arg row params) = .ok v) groupRows vals) :
    (∀ build, SumOf vals (sumAggregate E build (arg :: args) groupRows params)) ↔ PartialSumsFit vals := by
  have hzero : (0 : Int64).toInt = 0 := rfl
  have hfit : PartialSumsFit vals ↔ FitFrom (0 : Int64).toInt (intsOf vals) := by
    simp only [PartialSumsFit, FitFrom, hzero, Int.zero_add]
  rw [hfit]
  constructor
  · intro h
    rcases @debug_sums E vals ⟨0, .ofNat 0, false⟩ with hfits | hpanic
    · exact hfits
    · have hsum := h .debug
      have hrun : sumAggregate E .debug (arg :: args) groupRows params = .error .overflow := by
        rw [sumAggregate_eq E .debug hvals, hpanic]
        rfl
      rw [hrun, SumOf] at hsum
      split at hsum
      · exact absurd hsum not_exactOrRefused_overflow
      · cases hsum
  · intro h build
    obtain ⟨t, ht, hsum, hfloats, hfloat⟩ := sums_of_fits E build (s := ⟨0, .ofNat 0, false⟩) h
    have hrun : sumAggregate E build (arg :: args) groupRows params = .ok (t.total E) := by
      rw [sumAggregate_eq E build hvals, ht]
      rfl
    rw [hzero, Int.zero_add] at hsum
    rw [Bool.false_or] at hfloat
    rw [hrun]
    by_cases hnone : floatsOf vals = []
    · have hint : t.isFloat = false := by
        rw [hfloat, hnone]
        rfl
      rw [SumOf, if_pos hnone, Sums.total, hint]
      exact exactOrRefused_int.mpr hsum
    · have hsome : t.isFloat = true := by
        rw [hfloat, List.isEmpty_eq_false_iff.mpr hnone]
        rfl
      rw [SumOf, if_neg hnone, Sums.total, if_pos hsome, hfloats, hsum]

end ArithmeticAux

open ArithmeticAux

/-- In either build an operator, unary minus and `abs` give the exact integer, null or an error just where the result is in
range; for a quotient and a remainder, unless the least integer is divided by minus one. A sum over a group does so in both
builds just where the sum up to any of its rows is in range. -/
theorem integer_arithmetic_holds (M : MathLib E.ch) :
    (∀ build (a : Int64) (op : ArithOp) (b : Int64), op ≠ .pow →
      (ExactOrRefused (op.exact a.toInt b.toInt) (evalArith build M (.int a) op (.int b)) ↔ op.InRange a b)) ∧
    (∀ build (a : Int64), ExactOrRefused (-a.toInt) (negate build (.int a : Value E.ch)) ↔ a ≠ Int64.minValue) ∧
    (∀ build (a : Int64), ExactOrRefused a.toInt.natAbs (abs build (.int a : Value E.ch)) ↔ a ≠ Int64.minValue) ∧
    ∀ (arg : Expr) (args : List Expr) (groupRows : List (Row E.ch)) (params : Params) (vals : List (Value E.ch)),
      List.Forall₂ (fun row v => orNull E (evalExpr E arg row params) = .ok v) groupRows vals →
      ((∀ build, SumOf vals (sumAggregate E build (arg :: args) groupRows params)) ↔ PartialSumsFit vals) := by
  refine ⟨?_, ?_, ?_, ?_⟩
  · intro build a op b hop
    rw [evalArith_int]
    exact intArith_iff build M a hop b
  · intro build a
    exact (exact_int_iff build _).trans (fits_neg_iff a)
  · intro build a
    exact (exact_int_iff build _).trans (fits_natAbs_iff a)
  · intro arg args groupRows params vals hvals
    exact sumAggregate_iff E hvals

/-- One and two are added, and the one of a row is summed. -/
theorem integer_arithmetic_of_ones :
    ExactOrRefused 3 (evalArith .debug (.bare Engine.bare.ch) (.int 1) .add (.int 2)) ∧
      SumOf [.int 1] (sumAggregate Engine.bare .debug [.intLit 1] [∅] ∅) := by
  obtain ⟨harith, -, -, hsum⟩ := integer_arithmetic_holds Engine.bare (.bare Engine.bare.ch)
  refine ⟨(harith .debug 1 .add 2 nofun).mpr (by change Fits 3; decide), ?_⟩
  refine (hsum (.intLit 1) [] [∅] ∅ [.int 1] (.cons (by rw [evalExpr]; rfl) .nil)).mpr ?_ .debug
  intro sums hsums
  have hlength : sums = [] ∨ sums = [1] := by
    rcases sums with _ | ⟨i, sums⟩
    · exact .inl rfl
    · obtain ⟨rfl, hrest⟩ := List.cons_prefix_cons.mp hsums
      right
      rw [List.prefix_nil.mp hrest]
      rfl
  rcases hlength with rfl | rfl <;> decide

/-- The greatest integer and one add up to the least one in a release build, and the remainder of the least one by minus one,
which is zero, panics. -/
theorem addition_wraps :
    evalArith .release (.bare Engine.bare.ch) (.int Int64.maxValue) .add (.int 1) = .ok (.int Int64.minValue) ∧
      ¬ExactOrRefused (2 ^ 63) (evalArith .release (.bare Engine.bare.ch) (.int Int64.maxValue) .add (.int 1)) ∧
      ¬ExactOrRefused 0 (evalArith .release (.bare Engine.bare.ch) (.int Int64.minValue) .mod (.int (-1))) := by
  refine ⟨rfl, fun h => ?_, not_exactOrRefused_overflow⟩
  have hexact : Int64.minValue.toInt = 2 ^ 63 := exactOrRefused_int.mp h
  rw [toInt_minValue] at hexact
  omega

end

end PgEddy
