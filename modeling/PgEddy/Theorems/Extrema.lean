import PgEddy.Theorems.ReturnedRows

/-!
# The least and the greatest value

`min` and `max` go over the rows of a group once. Over plain values they find what `ORDER BY` puts first.
-/

namespace PgEddy

open Fallible StableSort PlainOrderAux ReturnAux

namespace ExtremaAux

variable {E : Engine} {P : ProjectionParts E}

/-- The pass over the values, without the rows. -/
def pass (P : ProjectionParts E) (wanted : Ordering) (result : Option (Value E.ch)) (v : Value E.ch) :
    Exec (Option (Value E.ch)) := do
  if v.isNull then return result else better P wanted result v

theorem foldlM_rows {arg : Expr} {params : Params} {wanted : Ordering} {rows : List (Row E.ch)} :
    ∀ {vals : List (Value E.ch)}, (rows.mapM fun row => orNull E (evalExpr E arg row params)) = .ok vals →
      ∀ result, rows.foldlM (fun result row => do
        let v ← orNull E (evalExpr E arg row params)
        if v.isNull then return result else better P wanted result v) result = vals.foldlM (pass P wanted) result := by
  induction rows with
  | nil =>
    intro vals h result
    rw [← Except.ok.inj h]
    rfl
  | cons row rows ih =>
    intro vals h result
    rw [List.mapM_cons] at h
    obtain ⟨v, hv, h⟩ := bind_eq_ok.mp h
    obtain ⟨rest, hrest, h⟩ := bind_eq_ok.mp h
    obtain rfl : v :: rest = vals := Except.ok.inj h
    rw [List.foldlM_cons, List.foldlM_cons, hv, ok_bind]
    exact bind_congr fun result => ih hrest result

/-- Over plain values the pass keeps the first of the least. -/
theorem foldlM_pass {wanted : Ordering} {c : Value E.ch → Value E.ch → Ordering}
    (hc : ∀ a b, c a b = .lt ↔ orderOf P.calendar a b = wanted) {vals : List (Value E.ch)} (hvals : ∀ v ∈ vals, PlainValue v) :
    ∀ {a : Value E.ch}, PlainValue a → vals.foldlM (pass P wanted) (some a) =
      .ok (some (firstLeast c a (vals.filter fun v => !v.isNull))) := by
  induction vals with
  | nil => intro a _; rfl
  | cons v vals ih =>
    intro a ha
    obtain ⟨hv, hrest⟩ := List.forall_mem_cons.mp hvals
    rw [List.foldlM_cons, pass]
    by_cases hnull : v.isNull = true
    · rw [if_pos hnull, List.filter_cons_of_neg (by simp [hnull])]
      exact ih hrest ha
    · have hstep : better P wanted (some a) v = .ok (some (if c v a = .lt then v else a)) := by
        rw [better, (plainValue_orders P.calendar).answers v a hv ha]
        simp only [ok_bind, hc]
        rfl
      rw [if_neg hnull, hstep, ok_bind, List.filter_cons_of_pos (by simp [hnull]), firstLeast_cons]
      refine ih hrest ?_
      split
      · exact hv
      · exact ha

/-- It keeps the head of a stable sort of what is not null. -/
theorem foldlM_pass_none {wanted : Ordering} {c : Value E.ch → Value E.ch → Ordering}
    {cmp : Value E.ch → Value E.ch → Exec Ordering} (horder : OrdersOn cmp c PlainValue)
    (hc : ∀ a b, c a b = .lt ↔ orderOf P.calendar a b = wanted) {vals sorted : List (Value E.ch)}
    (hvals : ∀ v ∈ vals, PlainValue v) (hsorted : StablySorted c (vals.filter fun v => !v.isNull) sorted) :
    vals.foldlM (pass P wanted) none = .ok sorted.head? := by
  induction vals with
  | nil =>
    rw [List.perm_nil.mp hsorted.perm]
    rfl
  | cons v vals ih =>
    obtain ⟨hv, hrest⟩ := List.forall_mem_cons.mp hvals
    rw [List.foldlM_cons, pass]
    by_cases hnull : v.isNull = true
    · rw [List.filter_cons_of_neg (by simp [hnull])] at hsorted
      rw [if_pos hnull]
      exact ih hrest hsorted
    · rw [List.filter_cons_of_pos (by simp [hnull])] at hsorted
      have hplain : ∀ b ∈ v :: vals.filter fun v => !v.isNull, PlainValue b := by
        intro b hb
        obtain rfl | hb := List.mem_cons.mp hb
        · exact hv
        · exact hrest b (List.mem_of_mem_filter hb)
      rw [if_neg hnull, head_of_stablySorted horder hplain hsorted]
      exact foldlM_pass hc hrest hv

/-- `min` finds the least value and `max` the greatest one. -/
theorem evalAggregateCall_extremum {name : String} {ascending : Bool}
    (hname : (aggregateBase name).1 = if ascending then "min" else "max") (arg : Expr) (rows : List (Row E.ch)) (params : Params) :
    evalAggregateCall P name [arg] rows params =
      extremumAggregate P (if ascending then "min" else "max") (if ascending then .lt else .gt) [arg] rows params := by
  unfold evalAggregateCall
  cases ascending <;> simp [hname]

/-- One item orders values as they are, or turned round. -/
theorem rowOrder_single (orderBy : Expr) (ascending : Bool) (a b : Value E.ch) :
    rowOrder P (fun _ v => .ok v) [⟨orderBy, ascending⟩] a b =
      if ascending then orderOf P.calendar a b else (orderOf P.calendar a b).swap := by
  change (if ascending then orderOf P.calendar a b else (orderOf P.calendar a b).swap).then .eq = _
  cases ascending <;> cases orderOf P.calendar a b <;> rfl

end ExtremaAux

open ExtremaAux

/-- Over plain values `min` and `max` are the first of the values that are not null as `ORDER BY` sorts them, up or down. Of values
that are level they are the first one in the rows. -/
theorem extremum_heads_sort {E : Engine} {P : ProjectionParts E} {arg : Expr} {rows : List (Row E.ch)} {params : Params}
    {vals : List (Value E.ch)} {name : String} {ascending : Bool}
    (hname : (aggregateBase name).1 = if ascending then "min" else "max")
    (hvals : (rows.mapM fun row => orNull E (evalExpr E arg row params)) = .ok vals) (hplain : ∀ v ∈ vals, PlainValue v) :
    ∃ sorted, sortBy (compareRows P (fun _ v => .ok v) [⟨arg, ascending⟩]) (vals.filter fun v => !v.isNull) = .ok sorted ∧
      evalAggregateCall P name [arg] rows params = .ok (sorted.head?.getD .null) := by
  have horder : OrdersOn (compareRows P (fun _ v => .ok v) [⟨arg, ascending⟩]) (rowOrder P (fun _ v => .ok v) [⟨arg, ascending⟩])
      (PlainValue : Value E.ch → Prop) :=
    compareRows_orders fun _ _ v hv => ⟨v, rfl, hv⟩
  have hwanted : ∀ a b : Value E.ch, rowOrder P (fun _ v => .ok v) [⟨arg, ascending⟩] a b = .lt ↔
      orderOf P.calendar a b = if ascending then .lt else .gt := by
    intro a b
    rw [rowOrder_single]
    cases ascending <;> cases orderOf P.calendar a b <;> simp
  obtain ⟨sorted, hsort, hsorted⟩ := sortBy_spec horder fun v (hv : v ∈ vals.filter fun v => !v.isNull) =>
    hplain v (List.mem_of_mem_filter hv)
  refine ⟨sorted, hsort, ?_⟩
  have hpass := foldlM_pass_none horder hwanted hplain hsorted
  rw [evalAggregateCall_extremum hname, extremumAggregate, foldlM_rows hvals, hpass]
  rfl

/-- The greatest of two rows. -/
theorem extremum_heads_sort_of_two :
    ∃ sorted : List (Value Engine.bare.ch), sortBy (compareRows (.bare .debug) (fun _ v => .ok v) [⟨.var "x", false⟩])
        [.int 2, .int 1] = .ok sorted ∧
      evalAggregateCall (.bare .debug) "max" [.var "x"] [rowOf 2, rowOf 1] ∅ = .ok (sorted.head?.getD .null) := by
  have hbase : (aggregateBase "max").1 = if false = true then "min" else "max" := by decide +kernel
  have hvals : ([rowOf 2, rowOf 1].mapM fun row => orNull Engine.bare (evalExpr Engine.bare (.var "x") row ∅)) =
      .ok [.int 2, .int 1] := by
    simp only [List.mapM_cons, List.mapM_nil, evalExpr_rowOf]
    rfl
  have hplain : ∀ v ∈ [(.int 2 : Value Engine.bare.ch), .int 1], PlainValue v := by
    intro v hv
    simp only [List.mem_cons, List.not_mem_nil, or_false] at hv
    obtain rfl | rfl := hv
    · change (2 : Int64).toInt.natAbs < 2 ^ 53
      decide
    · change (1 : Int64).toInt.natAbs < 2 ^ 53
      decide
  exact extremum_heads_sort hbase hvals hplain

end PgEddy
