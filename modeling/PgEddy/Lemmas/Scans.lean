import PgEddy.Lemmas.Rows
import PgEddy.Lib.Fallible

/-!
# The rows of a scan

A pattern of a first clause starts with a scan, whose rows bind the variable of the first node and nothing else.
-/

namespace PgEddy

open RowAux Fallible

variable {C : Catalog} {E : Engine} {G : Graph}

theorem exists_of_mem_filterMapM {ε α β : Type} {f : α → Except ε (Option β)} {xs : List α} {ys : List β}
    (h : xs.filterMapM f = .ok ys) {y : β} (hy : y ∈ ys) : ∃ x ∈ xs, f x = .ok (some y) := by
  induction xs generalizing ys with
  | nil =>
    cases h
    cases hy
  | cons x xs ih =>
    rw [List.filterMapM_cons] at h
    cases hx : f x with
    | error e => rw [hx] at h; cases h
    | ok o =>
      rw [hx] at h
      cases o with
      | none =>
        obtain ⟨x', hx', hfx'⟩ := ih h hy
        exact ⟨x', List.mem_cons_of_mem _ hx', hfx'⟩
      | some z =>
        cases hrest : xs.filterMapM f with
        | error e => simp only [hrest, bind, Except.bind, reduceCtorEq] at h
        | ok zs =>
          simp only [hrest, bind, Except.bind, pure, Except.pure, Except.ok.injEq] at h
          rw [← h] at hy
          rcases List.mem_cons.mp hy with rfl | hy
          · exact ⟨x, List.mem_cons_self, hx⟩
          · obtain ⟨x', hx', hfx'⟩ := ih hrest hy
            exact ⟨x', List.mem_cons_of_mem _ hx', hfx'⟩

/-- A filter only takes rows out. -/
theorem mem_of_execFilter {predicate : Expr} {rows rows' : List E.Row} {params : Params}
    (h : execFilter E predicate rows params = .ok rows') {row : E.Row} (hrow : row ∈ rows') : row ∈ rows := by
  obtain ⟨r, hr, hf⟩ := exists_of_mem_filterMapM h hrow
  cases hv : evalExpr E predicate r params with
  | error f => simp only [hv, bind, Except.bind, reduceCtorEq] at hf
  | ok v =>
    simp only [hv, bind, Except.bind, pure, Except.pure, Except.ok.injEq] at hf
    split at hf
    · exact Option.some.inj hf ▸ hr
    · cases hf

/-- What holds of all rows of a plan holds of all rows under filters. -/
theorem execute_withFilters_forall {plan : LogicalPlan E.ch} {params : Params} {P : E.Row → Prop}
    (h : ∀ rows, execute E G plan params = .ok rows → ∀ row ∈ rows, P row) (filters : List Expr) :
    ∀ rows, execute E G (withFilters plan filters) params = .ok rows → ∀ row ∈ rows, P row := by
  induction filters generalizing plan with
  | nil => exact h
  | cons e filters ih =>
    refine ih fun rows hrows => ?_
    unfold execute at hrows
    cases hin : execute E G plan params with
    | error f => rw [hin] at hrows; cases hrows
    | ok input =>
      rw [hin] at hrows
      exact fun row hrow => h input hin row (mem_of_execFilter hrows hrow)

theorem mem_scanRows {var : String} {needed : Option (List String)} {label : Option String}
    {props : List (String × Expr)} {params : Params} {nodeIds : List Int64} {rows : List E.Row}
    (h : scanRows E G var needed label props params nodeIds = .ok rows) {row : E.Row} (hrow : row ∈ rows) :
    ∃ v, row = (∅ : E.Row).insert var v := by
  obtain ⟨nid, -, hf⟩ := exists_of_mem_filterMapM h hrow
  cases hn : G.findNode nid with
  | none => simp only [hn, reduceCtorEq, Except.ok.injEq] at hf
  | some r =>
    simp only [hn] at hf
    split at hf
    · cases hf
    · cases hp : propsMatch E (r.value E nid needed) (scanRow E params) params props with
      | error f => simp only [hp, bind, Except.bind, reduceCtorEq] at hf
      | ok b =>
        simp only [hp, bind, Except.bind, pure, Except.pure] at hf
        cases b with
        | false => cases hf
        | true =>
          refine ⟨r.value E nid needed, ?_⟩
          exact (Option.some.inj (Except.ok.inj hf)).symm

theorem tryPropertyIndexScan_var {var label : String} {props : List (String × Expr)} {optional : Bool}
    {scan : PropertyIndexScan} (h : tryPropertyIndexScan C var label props optional = some scan) :
    scan.var = var ∧ scan.optional = optional := by
  unfold tryPropertyIndexScan at h
  split at h
  · cases h
  · obtain ⟨p, -, rfl⟩ := Option.map_eq_some_iff.mp h
    exact ⟨rfl, rfl⟩

theorem mem_orNullRow {optional : Bool} {var : String} {rows : List E.Row}
    (h : ∀ row ∈ rows, ∃ v, row = (∅ : E.Row).insert var v) :
    ∀ row ∈ orNullRow E optional var rows, ∃ v, row = (∅ : E.Row).insert var v := by
  unfold orNullRow
  split
  · intro row hrow
    rw [List.mem_singleton] at hrow
    exact ⟨.null, hrow⟩
  · exact h

/-- The rows of a scan bind its variable. -/
theorem execute_scanNode_forall {n : NodePattern} {var : String} {optional : Bool} {params : Params} {rows : List E.Row}
    (h : execute E G (scanNode C var n optional) params = .ok rows) : ∀ row ∈ rows, ∃ v, row = (∅ : E.Row).insert var v := by
  unfold scanNode at h
  split at h
  · rename_i scan hscan
    obtain ⟨l, -, hscan⟩ := Option.bind_eq_some_iff.mp hscan
    obtain ⟨hvar, hopt⟩ := tryPropertyIndexScan_var hscan
    change execPropertyIndexScan E G scan params = .ok rows at h
    unfold execPropertyIndexScan at h
    obtain ⟨v, -, h⟩ := bind_eq_ok.mp h
    obtain ⟨scanned, hscanned, rfl⟩ := map_eq_ok.mp h
    rw [hvar] at hscanned ⊢
    exact mem_orNullRow fun row hrow => mem_scanRows hscanned hrow
  · change execLabelScan E G ⟨var, n.labels.head?, n.properties, optional, none⟩ params = .ok rows at h
    unfold execLabelScan at h
    split at h
    · cases h
      exact mem_orNullRow (by simp)
    · obtain ⟨scanned, hscanned, rfl⟩ := map_eq_ok.mp h
      exact mem_orNullRow fun row hrow => mem_scanRows hscanned hrow

/-- The rows of a first node of a first clause. -/
theorem execute_planFirstNode_forall {n : NodePattern} {var : String} {params : Params} {rows : List E.Row}
    (h : execute E G (planFirstNode C .singleRow n var false false) params = .ok rows) :
    ∀ row ∈ rows, ∃ v, row = (∅ : E.Row).insert var v :=
  execute_withFilters_forall (fun _ hrows => execute_scanNode_forall hrows) _ rows h

end PgEddy
