import PgEddy.Lemmas.Rows

/-!
# What an expression depends on

An expression depends on some variables only if rows that agree on them, and on nothing else, give it the same value. The
filters that the planner makes depend on the variables they name and on what the expressions in them depend on.
-/

namespace PgEddy

open RowAux

variable {E : Engine}

/-- The rows agree on the variables of a set. -/
def AgreeOn (V : String → Prop) (row row' : E.Row) : Prop := ∀ x, V x → row[x]? = row'[x]?

/-- Rows that agree on the variables of a set give the expression the same value. -/
def DependsOn (E : Engine) (V : String → Prop) (e : Expr) : Prop :=
  ∀ (params : Params) (row row' : E.Row), AgreeOn V row row' → evalExpr E e row params = evalExpr E e row' params

variable {V : String → Prop}

theorem AgreeOn.insert {row row' : E.Row} (h : AgreeOn V row row') (x : String) (v : E.Value) :
    AgreeOn V (row.insert x v) (row'.insert x v) := by
  intro y hy
  rw [get_insert, get_insert, h y hy]

theorem AgreeOn.lookupVar {row row' : E.Row} (h : AgreeOn V row row') (params : Params) {x : String} (hx : V x) :
    lookupVar E row params x = lookupVar E row' params x := by
  unfold PgEddy.lookupVar
  rw [h x hx]

theorem AgreeOn.boundDst {row row' : E.Row} (h : AgreeOn V row row') (params : Params) {x : String} (hx : V x) :
    boundDst E row params x = boundDst E row' params x := by
  unfold PgEddy.boundDst
  rw [h x hx, h.lookupVar params hx]

theorem dependsOn_var {x : String} (hx : V x) : DependsOn E V (.var x) := by
  intro params row row' h
  rw [evalExpr_var, evalExpr_var, h x hx]

theorem DependsOn.property {e : Expr} (h : DependsOn E V e) (key : String) : DependsOn E V (.property e key) := by
  intro params row row' hr
  rw [evalExpr_property, evalExpr_property, h params row row' hr]

theorem DependsOn.compare {l r : Expr} (hl : DependsOn E V l) (op : CmpOp) (hr : DependsOn E V r) :
    DependsOn E V (.compare l op r) := by
  intro params row row' h
  rw [evalExpr_compare, evalExpr_compare, hl params row row' h, hr params row row' h]

theorem DependsOn.and {l r : Expr} (hl : DependsOn E V l) (hr : DependsOn E V r) : DependsOn E V (.and l r) := by
  intro params row row' h
  rw [evalExpr_and, evalExpr_and, hl params row row' h, hr params row row' h]

theorem DependsOn.hasLabel {e : Expr} (h : DependsOn E V e) (labels : List String) : DependsOn E V (.hasLabel e labels) := by
  intro params row row' hr
  rw [evalExpr_hasLabel, evalExpr_hasLabel, h params row row' hr]

theorem DependsOn.listPredicate {l p : Expr} (hl : DependsOn E V l) (hp : DependsOn E V p) (kind : ListPredicateKind)
    (x : String) : DependsOn E V (.listPredicate kind x l p) := by
  intro params row row' h
  rw [evalExpr_listPredicate, evalExpr_listPredicate, hl params row row' h]
  have hitem : ∀ v : E.Value, evalExpr E p (row.insert x v) params = evalExpr E p (row'.insert x v) params :=
    fun v => hp params _ _ (h.insert x v)
  simp only [hitem]

theorem dependsOn_propEq {x key : String} {e : Expr} (hx : V x) (he : DependsOn E V e) : DependsOn E V (propEq x key e) :=
  ((dependsOn_var hx).property key).compare .eq he

/-- The values of a property map are the same in rows that agree. -/
theorem propsMatch_congr {props : List (String × Expr)} (hprops : ∀ p ∈ props, DependsOn E V p.2) {row row' : E.Row}
    (h : AgreeOn V row row') (val : E.Value) (params : Params) :
    propsMatch E val (.ok row) params props = propsMatch E val (.ok row') params props := by
  induction props with
  | nil => rfl
  | cons p props ih =>
    obtain ⟨hp, hrest⟩ := List.forall_mem_cons.mp hprops
    unfold propsMatch
    simp only [Except.bind, bind, hp params row row' h, ih hrest]

end PgEddy
