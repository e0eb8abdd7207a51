import Mathlib.Data.List.Nodup
import PgEddy.Lemmas.Rows

/-!
# The filter on the relationships of a clause

On a row that binds its variables to relationships the filter does not fail, and it holds exactly if the relationships are
pairwise different.
-/

namespace PgEddy

variable {E : Engine}

theorem all_pairs {α : Type} {r : α → α → Bool} {l : List α} :
    ((pairs l).all fun p => r p.1 p.2) = true ↔ l.Pairwise fun a b => r a b = true := by
  induction l with
  | nil => simp [pairs]
  | cons a l ih => rw [pairs, List.all_append, Bool.and_eq_true, ih, List.pairwise_cons, List.all_map, List.all_eq_true]; rfl

/-- A conjunction of conditions that evaluate to booleans. -/
theorem evalExpr_foldl_and {row : E.Row} {params : Params} {α : Type} {f : α → Expr} {g : α → Bool} {items : List α}
    (h : ∀ a ∈ items, evalExpr E (f a) row params = .ok (.bool (g a))) {first : Expr} {b : Bool}
    (hfirst : evalExpr E first row params = .ok (.bool b)) :
    evalExpr E ((items.map f).foldl Expr.and first) row params = .ok (.bool (b && items.all g)) := by
  induction items generalizing first b with
  | nil => rw [List.all_nil, Bool.and_true]; exact hfirst
  | cons a items ih =>
    obtain ⟨ha, hrest⟩ := List.forall_mem_cons.mp h
    have hstep : evalExpr E (.and first (f a)) row params = .ok (.bool (b && g a)) := by
      rw [evalExpr_and, hfirst, ha]
      cases b <;> cases g a <;> rfl
    rw [List.map_cons, List.foldl_cons, ih hrest hstep, List.all_cons, Bool.and_assoc]

theorem Binds.eq_edge {row : E.Row} {x : String} {edgeId : Int64} (h : Binds row x edgeId) :
    ∃ t source target properties, row[x]? = some (.edge edgeId t source target properties) := by
  obtain ⟨v, hv, he⟩ := h
  cases v with
  | edge e t source target properties =>
    cases Option.some.inj he
    exact ⟨t, source, target, properties, hv⟩
  | _ => cases he

theorem evalExpr_distinctRels {row : E.Row} {params : Params} {r1 r2 : String} {e1 e2 : Int64} (h1 : Binds row r1 e1)
    (h2 : Binds row r2 e2) : evalExpr E (distinctRels r1 r2) row params = .ok (.bool (decide (e1 ≠ e2))) := by
  obtain ⟨t, s, d, ps, h1⟩ := h1.eq_edge
  obtain ⟨t', s', d', ps', h2⟩ := h2.eq_edge
  unfold distinctRels
  rw [evalExpr_or, evalExpr_or, evalExpr_isNull, evalExpr_isNull, evalExpr_compare, evalExpr_id, evalExpr_id, evalExpr_var,
    evalExpr_var, h1, h2]
  -- neither relationship is null, which leaves the comparison of the ids
  change (compareValues E (.int e1) .neq (.int e2) >>= fun c =>
    evalLogic E or3 (.bool false) (.ofBool? c) >>= evalLogic E or3 (.bool false)) = _
  rw [show compareValues E (.int e1) .neq (.int e2) = .ok (some (decide (e1 ≠ e2))) from rfl]
  cases decide (e1 ≠ e2) <;> rfl

/-- The relationship that a variable is bound to. -/
def boundEdge (row : E.Row) (x : String) : Int64 := (row[x]?.bind Value.edgeId).getD 0

theorem Binds.boundEdge_eq {row : E.Row} {x : String} {edgeId : Int64} (h : Binds row x edgeId) :
    boundEdge row x = edgeId := by
  obtain ⟨v, hv, he⟩ := h
  unfold boundEdge
  rw [hv, Option.bind_some, he, Option.getD_some]

theorem map_boundEdge {row : E.Row} {vars : List String} {edgeIds : List Int64} (h : List.Forall₂ (Binds row) vars edgeIds) :
    vars.map (boundEdge row) = edgeIds := by
  induction h with
  | nil => rfl
  | cons hb _ ih => rw [List.map_cons, hb.boundEdge_eq, ih]

/-- With fewer than two relationships there is nothing to filter. -/
theorem buildRelIsomorphismFilter_eq_none {vars : List String} (h : buildRelIsomorphismFilter vars = none) :
    vars.length ≤ 1 := by
  unfold buildRelIsomorphismFilter at h
  split at h
  · rename_i hnil
    match vars, List.map_eq_nil_iff.mp hnil with
    | [], _ => exact Nat.zero_le 1
    | [_], _ => exact Nat.le_refl 1
    | _ :: _ :: _, hpairs => cases hpairs
  · cases h

/-- The filter holds exactly if the relationships are pairwise different. -/
theorem evalExpr_buildRelIsomorphismFilter {row : E.Row} {params : Params} {vars : List String} {edgeIds : List Int64}
    (h : List.Forall₂ (Binds row) vars edgeIds) {iso : Expr} (hiso : buildRelIsomorphismFilter vars = some iso) :
    evalExpr E iso row params = .ok (.bool (decide edgeIds.Nodup)) := by
  have hpair : ∀ p ∈ pairs vars, evalExpr E (distinctRels p.1 p.2) row params =
      .ok (.bool (decide (boundEdge row p.1 ≠ boundEdge row p.2))) := by
    intro p hp
    have hmem : p.1 ∈ vars ∧ p.2 ∈ vars := by
      clear h hiso
      induction vars with
      | nil => cases hp
      | cons a vars ih =>
        rcases List.mem_append.mp hp with hp | hp
        · obtain ⟨b, hb, rfl⟩ := List.mem_map.mp hp
          exact ⟨List.mem_cons_self, List.mem_cons_of_mem _ hb⟩
        · exact ⟨List.mem_cons_of_mem _ (ih hp).1, List.mem_cons_of_mem _ (ih hp).2⟩
    have hbound : ∀ x ∈ vars, Binds row x (boundEdge row x) := by
      intro x hx
      obtain ⟨i, hi, rfl⟩ := List.getElem_of_mem hx
      have hb := h.get hi (h.length_eq ▸ hi)
      simp only [List.get_eq_getElem] at hb
      rw [hb.boundEdge_eq]
      exact hb
    exact evalExpr_distinctRels (hbound _ hmem.1) (hbound _ hmem.2)
  have hall : (pairs vars).all (fun p => decide (boundEdge row p.1 ≠ boundEdge row p.2)) = decide edgeIds.Nodup := by
    rw [Bool.eq_iff_iff, decide_eq_true_iff, ← map_boundEdge h, List.Nodup, List.pairwise_map]
    refine (@all_pairs _ (fun a b => decide (boundEdge row a ≠ boundEdge row b)) vars).trans ?_
    simp only [decide_eq_true_eq]
  unfold buildRelIsomorphismFilter at hiso
  split at hiso
  · cases hiso
  · rename_i first rest hcons
    rw [← hall, ← Option.some.inj hiso]
    match hp : pairs vars with
    | [] => rw [hp] at hcons; cases hcons
    | p :: ps =>
      rw [hp, List.map_cons, List.cons.injEq] at hcons
      rw [hp] at hpair
      obtain ⟨hfirst, hrest⟩ := List.forall_mem_cons.mp hpair
      rw [← hcons.1, ← hcons.2, List.all_cons]
      exact evalExpr_foldl_and hrest hfirst

theorem execFilter_eq {rows : List E.Row} {params : Params} {predicate : Expr} {b : E.Row → Bool}
    (h : ∀ row ∈ rows, evalExpr E predicate row params = .ok (.bool (b row))) :
    execFilter E predicate rows params = .ok (rows.filter b) := by
  unfold execFilter
  induction rows with
  | nil => rfl
  | cons row rows ih =>
    obtain ⟨hrow, hrest⟩ := List.forall_mem_cons.mp h
    rw [List.filterMapM_cons, hrow, List.filter_cons]
    cases hb : b row with
    | true =>
      simp only [bind, Except.bind, pure, Except.pure, Value.isTruthy, ↓reduceIte] at ih ⊢
      rw [ih hrest]
    | false =>
      simp only [bind, Except.bind, pure, Except.pure, Value.isTruthy, Bool.false_eq_true, ↓reduceIte] at ih ⊢
      exact ih hrest

/-- The relationships of the row are pairwise different. -/
def distinctIn (vars : List String) (row : E.Row) : Bool := decide (vars.map (boundEdge row)).Nodup

/-- The rows that the filter of a clause leaves. -/
theorem execute_isoFilter {G : Graph} {plan : LogicalPlan E.ch} {params : Params} {rows : List E.Row}
    (hrows : execute E G plan params = .ok rows) {vars : List String}
    (hbinds : ∀ row ∈ rows, ∃ edgeIds, List.Forall₂ (Binds row) vars edgeIds) :
    execute E G (withFilters plan (buildRelIsomorphismFilter vars).toList) params = .ok (rows.filter (distinctIn vars)) := by
  cases hiso : buildRelIsomorphismFilter vars with
  | none =>
    have hall : rows.filter (distinctIn vars) = rows := by
      refine List.filter_eq_self.mpr fun row _ => decide_eq_true ?_
      match vars, buildRelIsomorphismFilter_eq_none hiso with
      | [], _ => exact List.nodup_nil
      | [_], _ => exact List.nodup_singleton _
    rw [hall]
    exact hrows
  | some iso =>
    change execute E G (.filter plan iso) params = _
    unfold execute
    rw [hrows]
    refine execFilter_eq fun row hrow => ?_
    obtain ⟨edgeIds, hb⟩ := hbinds row hrow
    rw [evalExpr_buildRelIsomorphismFilter hb hiso, distinctIn, map_boundEdge hb]

end PgEddy
