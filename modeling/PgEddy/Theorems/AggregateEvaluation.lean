import PgEddy.AggregateEval
import PgEddy.Lemmas.AggregateCalls
import PgEddy.Lemmas.EvalSteps
import PgEddy.Lemmas.Names

/-!
# Evaluation over a group is evaluation

Over a group, an expression has the value that it has in the first row with the value of each aggregate call bound to a fresh
variable in its place, if every aggregate call stands where the evaluator over groups looks, and what it does differently
there makes no difference.
-/

namespace PgEddy

open Fallible RowAux

/-- The expression with a variable in place of each outermost aggregate call. -/
def replaceAggregates (fresh : String → List Expr → String) : Expr → Expr :=
  Expr.rewrite fun
    | .functionCall name args => if isAggregateName name then some (.var (fresh name args)) else none
    | _ => none

/-- An aggregate call in an expression that stands in no other one. -/
inductive Outermost (name : String) (args : List Expr) : Expr → Prop
  | here : isAggregateName name = true → Outermost name args (.functionCall name args)
  | inside {e c : Expr} : isCall isAggregateName e = false → c ∈ e.children → Outermost name args c → Outermost name args e

/-- No variable of a set occurs in an expression outside its aggregate calls, or makes a difference to what its patterns and
queries are. -/
inductive Avoids (E : Engine) (F : String → Prop) : Expr → Prop
  | mk {e : Expr} : (∀ x, e = .var x → ¬F x) → (∀ x, e.binder = some x → ¬F x) →
    (e.isOpaque = true → DependsOn E (fun x => ¬F x) e) →
    (isCall isAggregateName e = false → ∀ c ∈ e.children, Avoids E F c) → Avoids E F e

variable {E : Engine}

theorem Avoids.child {F : String → Prop} {e c : Expr} (h : Avoids E F e) (hcall : isCall isAggregateName e = false)
    (hc : c ∈ e.children) : Avoids E F c := by
  obtain ⟨_, _, _, h⟩ := h
  exact h hcall c hc

/-- An expression without aggregates does not depend on what it avoids. -/
theorem Avoids.dependsOn {F : String → Prop} {e : Expr} (h : Avoids E F e) (hagg : exprHasAggregate e = false) :
    DependsOn E (fun x => ¬F x) e := by
  induction e using Expr.childInduct with
  | step e ih =>
    obtain ⟨hvar, hbinder, hclosed, hchildren⟩ := h
    obtain ⟨hcall, hfree⟩ := exprHasAggregate_eq_false.mp hagg
    refine dependsOn_parts hclosed hvar (fun c hc => ?_) fun x hx c hc => ?_
    · have hc' := Expr.mem_children.mpr (.inl hc)
      exact ih c hc' (hchildren hcall c hc') (hfree c hc')
    · have hc' := Expr.mem_children.mpr (.inr hc)
      exact (ih c hc' (hchildren hcall c hc') (hfree c hc')).mono fun y hy => .inl hy

/-! ## Expressions without aggregates -/

variable {fresh : String → List Expr → String}

theorem replaceAggregates_call {name : String} (args : List Expr) (h : isAggregateName name = true) :
    replaceAggregates fresh (.functionCall name args) = .var (fresh name args) :=
  Expr.rewrite_of_some (if_pos h)

theorem replaceAggregates_of_not_call {e : Expr} (h : isCall isAggregateName e = false) :
    replaceAggregates fresh e = e.mapChildren (replaceAggregates fresh) := by
  refine Expr.rewrite_of_none ?_
  cases e with
  | functionCall name args => exact if_neg (Bool.eq_false_iff.mp h)
  | _ => rfl

theorem replaceAggregates_of_free {e : Expr} (h : exprHasAggregate e = false) : replaceAggregates fresh e = e := by
  induction e using Expr.childInduct with
  | step e ih =>
    obtain ⟨hcall, hchildren⟩ := exprHasAggregate_eq_false.mp h
    rw [replaceAggregates_of_not_call hcall, Expr.mapChildren_eq_self fun c hc => ih c hc (hchildren c hc)]

/-! ## The two evaluations -/

section

variable (E) (evalAggregateCall : String → List Expr → List (Row E.ch) → Params → Exec (Value E.ch))
  (fresh : String → List Expr → String) (first : Row E.ch) (rest : List (Row E.ch)) (fallback : Row E.ch) (params : Params)
  (row' : Row E.ch)

/-- The row is the first one with the values of the aggregate calls of an expression bound to their variables. -/
structure ExtendedRow (e : Expr) : Prop where
  others : AgreeOn (fun x => ¬∃ name args, x = fresh name args) first row'
  bound : ∀ name args, Outermost name args e →
    ∃ v, evalAggregateCall name args (first :: rest) params = .ok v ∧ row'[fresh name args]? = some v

/-- Not to evaluate the right side where the left side decides, or is no boolean, makes no difference. -/
def RightMayWait (decides : Bool) (left right : Exec (Value E.ch)) : Prop :=
  ∀ v, left = .ok v →
    match v.requireBool with
    | .ok (some b) => b = decides → ∃ w c, right = .ok w ∧ w.requireBool = .ok c
    | .ok none => True
    | .error err => ∀ err', right = .error err' → err' = err

/-- A function that fails with its first argument that fails. -/
def IsStrict (name : String) (names : List (Option String)) : Prop :=
  ∀ (results : List (Exec (Value E.ch))) (err : Failure), results.mapM id = .error err → callFunction E name names results = .error err

/-- A constructor that both evaluators take apart in the same way. -/
def isShared : Expr → Bool
  | .arith .. | .compare .. | .xor .. | .not _ | .isNull _ | .isNotNull _ | .neg _ => true
  | .caseSearched .. | .mapLiteral _ | .list _ => true
  | _ => false

/-- The aggregate calls of an expression stand where the evaluator over groups looks for them, and the two evaluators agree on
what is around them. -/
inductive GroupSafe : Expr → Prop
  | free {e : Expr} : exprHasAggregate e = false → GroupSafe e
  | call {name : String} (args : List Expr) : isAggregateName name = true → GroupSafe (.functionCall name args)
  | shared {e : Expr} : isShared e = true → (∀ c ∈ e.children, GroupSafe c) → GroupSafe e
  | and {left right : Expr} : GroupSafe left → GroupSafe right →
    RightMayWait E false (evalExpr E (replaceAggregates fresh left) row' params)
      (evalExpr E (replaceAggregates fresh right) row' params) → GroupSafe (.and left right)
  | or {left right : Expr} : GroupSafe left → GroupSafe right →
    RightMayWait E true (evalExpr E (replaceAggregates fresh left) row' params)
      (evalExpr E (replaceAggregates fresh right) row' params) → GroupSafe (.or left right)
  /-- All arguments are evaluated before the function, which does not see their names. -/
  | function {name : String} {args : List Expr} : isAggregateName name = false → (∀ a ∈ args, GroupSafe a) →
    (∀ names names', callFunction E name names = callFunction E name names') →
    ((∀ a ∈ args, ∃ v, evalExpr E (replaceAggregates fresh a) row' params = .ok v) ∨ IsStrict E name []) →
    GroupSafe (.functionCall name args)
  /-- Neither the predicate nor the projection has an aggregate, and the predicate does not fail. -/
  | listComprehension {x : String} {listExpr : Expr} {predicate projection : Option Expr} : GroupSafe listExpr →
    (∀ c ∈ predicate.toList ++ projection.toList, exprHasAggregate c = false) →
    (∀ v, evalExpr E (replaceAggregates fresh listExpr) row' params = .ok v →
      v = .null ∨ ∃ items, v = .json (.array items) ∧ ∀ item ∈ items, ∀ val, readJson E.ch item = .ok val →
        ∀ pred ∈ predicate, ∀ message, evalExpr E pred (first.insert x val) params ≠ .error (.error message)) →
    GroupSafe (.listComprehension x listExpr predicate projection)
  /-- The predicate has no aggregate. -/
  | listPredicate {kind : ListPredicateKind} {x : String} {listExpr predicate : Expr} : GroupSafe listExpr →
    exprHasAggregate predicate = false → GroupSafe (.listPredicate kind x listExpr predicate)

end

/-! ## One expression at a time -/

section

variable {agg : String → List Expr → List (Row E.ch) → Params → Exec (Value E.ch)} {first : Row E.ch} {rest : List (Row E.ch)}
  {fallback : Row E.ch} {params : Params} {row' : Row E.ch}

/-- The evaluator over a group by its definition, made out once for all that follows. -/
alias evalWithAgg_eq := evalWithAgg.eq_def

alias evalEachWithAgg_cons := evalEachWithAgg.eq_2

alias evalBranchesWithAgg_cons := evalBranchesWithAgg.eq_2

alias evalPairsWithAgg_cons := evalPairsWithAgg.eq_2

theorem evalWithAgg_of_free {e : Expr} (h : exprHasAggregate e = false) :
    evalWithAgg E agg (first :: rest) fallback params e = evalExpr E e first params := by
  rw [evalWithAgg_eq, h]
  rfl

theorem evalEachWithAgg_eq_mapM (es : List Expr) :
    evalEachWithAgg E agg (first :: rest) fallback params es = es.mapM (evalWithAgg E agg (first :: rest) fallback params) := by
  induction es with
  | nil => rfl
  | cons e es ih => rw [evalEachWithAgg_cons, List.mapM_cons, ih]

theorem evalBranchesWithAgg_eq_pick (branches : List (Expr × Expr)) :
    evalBranchesWithAgg E agg (first :: rest) fallback params branches =
      pickBranch E (fun c => return c.truthy3 = some true) (branches.map fun b =>
        (evalWithAgg E agg (first :: rest) fallback params b.1, evalWithAgg E agg (first :: rest) fallback params b.2)) := by
  induction branches with
  | nil => rfl
  | cons b branches ih =>
    obtain ⟨cond, then_⟩ := b
    rw [evalBranchesWithAgg_cons, List.map_cons, pickBranch, ih]
    refine bind_congr fun cv => ?_
    simp

theorem evalPairsWithAgg_eq_mapM (pairs : List (String × Expr)) :
    evalPairsWithAgg E agg (first :: rest) fallback params pairs =
      pairs.mapM fun e => do return (e.1, (← evalWithAgg E agg (first :: rest) fallback params e.2).toJson) := by
  induction pairs with
  | nil => rfl
  | cons p pairs ih =>
    obtain ⟨key, e⟩ := p
    rw [evalPairsWithAgg_cons, List.mapM_cons, ih]
    cases evalWithAgg E agg (first :: rest) fallback params e with
    | error err => rfl
    | ok v => rfl

/-- On a shared constructor, the evaluation over a group is one step over the values of the parts. -/
theorem evalWithAgg_shared {e : Expr} (hshared : isShared e = true) (hagg : exprHasAggregate e = true) (row : Row E.ch) :
    evalWithAgg E agg (first :: rest) fallback params e =
      evalStep E (fun c _ => evalWithAgg E agg (first :: rest) fallback params c) e row params := by
  rw [evalWithAgg_eq, hagg, Bool.not_true, if_neg Bool.false_ne_true]
  cases e with
  | list items =>
    rw [evalStep, List.mapM_map]
    exact congrArg (· >>= _) (evalEachWithAgg_eq_mapM items)
  | mapLiteral pairs =>
    rw [evalStep, ← evalPairsWithAgg_eq_mapM]
  | caseSearched branches else_ =>
    rw [evalStep, ← evalBranchesWithAgg_eq_pick]
    cases else_ <;> rfl
  | arith | compare | xor | not | isNull | isNotNull | neg => rfl
  | _ => cases hshared

theorem evalWithAgg_call {name : String} (args : List Expr) (h : isAggregateName name = true) :
    evalWithAgg E agg (first :: rest) fallback params (.functionCall name args) = agg name args (first :: rest) params := by
  have hagg : exprHasAggregate (.functionCall name args) = true := by
    rw [exprHasAggregate_eq]
    exact Bool.or_eq_true_iff.mpr (.inl h)
  rw [evalWithAgg_eq, hagg, Bool.not_true, if_neg Bool.false_ne_true]
  exact if_pos h

theorem fnArg_injective {m n : Nat} (h : fnArg m = fnArg n) : m = n := Nat.repr_inj.mp ((String.append_right_inj _).mp h)

/-- The row made for values has the value of each place under its name. -/
theorem get_fnArgs (vals : List (Value E.ch)) (n : Nat) (row : Row E.ch) (i : Nat) :
    ((vals.zipIdx n).foldl (fun row p => row.insert (fnArg p.2) p.1) row)[fnArg i]? =
      if n ≤ i then (vals[i - n]?).or row[fnArg i]? else row[fnArg i]? := by
  induction vals generalizing n row with
  | nil => simp
  | cons v vals ih =>
    rw [List.zipIdx_cons, List.foldl_cons, ih, get_insert]
    obtain hlt | rfl | hgt := Nat.lt_trichotomy i n
    · have hne : fnArg n ≠ fnArg i := fun h => Nat.ne_of_gt hlt (fnArg_injective h)
      rw [if_neg (by omega), if_neg hne, if_neg (by omega)]
    · rw [if_neg (by omega), if_pos rfl, if_pos (Nat.le_refl i), Nat.sub_self]
      rfl
    · have hne : fnArg n ≠ fnArg i := fun h => Nat.ne_of_gt hgt (fnArg_injective h).symm
      obtain ⟨k, rfl⟩ : ∃ k, i = n + 1 + k := ⟨i - (n + 1), by omega⟩
      rw [if_pos (by omega), if_neg hne, if_pos (by omega), show n + 1 + k - n = (n + 1 + k - (n + 1)) + 1 by omega]
      rfl

/-- A function of values is called on them, in their order. -/
theorem evalFunctionWithVals_eq (name : String) (vals : List (Value E.ch)) :
    evalFunctionWithVals E name vals =
      callFunction E name (vals.zipIdx.map fun p => some (fnArg p.2)) (vals.map .ok) := by
  have hargs : (vals.zipIdx.map fun p => Expr.var (fnArg p.2)).map
      (fun a => evalExpr E a (vals.zipIdx.foldl (fun row p => row.insert (fnArg p.2) p.1) ∅) ∅) = vals.map .ok := by
    rw [List.map_map]
    refine List.ext_getElem (by simp) fun i hi _ => ?_
    have hget := get_fnArgs vals 0 ∅ i
    rw [if_pos (Nat.zero_le i), Nat.sub_zero, List.getElem?_eq_getElem (by simpa using hi), Option.some_or] at hget
    simp only [List.getElem_map, Function.comp_apply, List.getElem_zipIdx, Nat.zero_add, evalExpr_var, hget]
  rw [evalFunctionWithVals, evalExpr_eq_step, evalStep, hargs, argNames, List.map_map]
  rfl

/-! ## Logical operators -/

/-- A logical operator that leaves the right side out where the left side decides. -/
def shortLogic (decides : Bool) (l r : Exec (Value E.ch)) : Exec (Value E.ch) := do
  let lv ← l
  match ← lv.requireBool with
  | some b =>
    if b = decides then return .bool decides
    else do
      let rv ← r
      return .ofBool? (← rv.requireBool)
  | none => do
    let rv ← r
    let rb ← rv.requireBool
    if rb = some decides then return .bool decides else return .null

/-- To leave the right side out makes no difference where it may wait. -/
theorem shortLogic_eq {decides : Bool} {op : Option Bool → Option Bool → Option Bool} (hdecides : ∀ c, op (some decides) c = some decides)
    (hother : ∀ c, op (some !decides) c = c) (hnull : ∀ c, op none c = if c = some decides then some decides else none)
    {l r : Exec (Value E.ch)} (h : RightMayWait E decides l r) :
    shortLogic decides l r = (do
      let lv ← l
      let rv ← r
      evalLogic E op lv rv) := by
  unfold shortLogic evalLogic
  cases l with
  | error err => rfl
  | ok lv =>
    have hl := h lv rfl
    simp only [ok_bind]
    cases hlb : lv.requireBool with
    | error err =>
      rw [hlb] at hl
      cases r with
      | error err' => rw [hl err' rfl]; rfl
      | ok rv => rfl
    | ok lb =>
      rw [hlb] at hl
      cases lb with
      | none =>
        simp only [ok_bind]
        refine bind_congr fun rv => bind_congr fun rb => ?_
        rw [hnull]
        split <;> rfl
      | some b =>
        by_cases hb : b = decides
        · obtain ⟨w, c, rfl, hc⟩ := hl hb
          simp only [ok_bind, hc, hb, hdecides, if_true]
          rfl
        · obtain rfl : b = !decides := by cases b <;> cases decides <;> simp_all
          simp only [ok_bind, if_neg hb, hother]

theorem evalWithAgg_and {left right : Expr} (hagg : exprHasAggregate (.and left right) = true) :
    evalWithAgg E agg (first :: rest) fallback params (.and left right) =
      shortLogic false (evalWithAgg E agg (first :: rest) fallback params left)
        (evalWithAgg E agg (first :: rest) fallback params right) := by
  rw [evalWithAgg_eq, hagg, Bool.not_true, if_neg Bool.false_ne_true]
  refine bind_congr fun lv => bind_congr fun lb => ?_
  obtain _ | _ | _ := lb
  · refine bind_congr fun rv => bind_congr fun rb => ?_
    obtain _ | _ | _ := rb <;> rfl
  · rfl
  · rfl

theorem evalWithAgg_or {left right : Expr} (hagg : exprHasAggregate (.or left right) = true) :
    evalWithAgg E agg (first :: rest) fallback params (.or left right) =
      shortLogic true (evalWithAgg E agg (first :: rest) fallback params left)
        (evalWithAgg E agg (first :: rest) fallback params right) := by
  rw [evalWithAgg_eq, hagg, Bool.not_true, if_neg Bool.false_ne_true]
  refine bind_congr fun lv => bind_congr fun lb => ?_
  obtain _ | _ | _ := lb
  · refine bind_congr fun rv => bind_congr fun rb => ?_
    obtain _ | _ | _ := rb <;> rfl
  · rfl
  · rfl

/-! ## The evaluation over a group -/

theorem evalWithAgg_function {name : String} {args : List Expr} (hname : isAggregateName name = false)
    (hagg : exprHasAggregate (.functionCall name args) = true) :
    evalWithAgg E agg (first :: rest) fallback params (.functionCall name args) = (do
      let vals ← args.mapM (evalWithAgg E agg (first :: rest) fallback params)
      evalFunctionWithVals E name vals) := by
  rw [evalWithAgg_eq, hagg, Bool.not_true, if_neg Bool.false_ne_true, ← evalEachWithAgg_eq_mapM]
  exact if_neg (Bool.eq_false_iff.mp hname)

/-- A function of evaluated arguments is the function, if it does not see their names and they all have values, or it evaluates
them all itself. -/
theorem function_of_values {name : String} {results : List (Exec (Value E.ch))} {names : List (Option String)}
    (hnames : ∀ names names', callFunction E name names = callFunction E name names')
    (h : (∀ result ∈ results, ∃ v, result = .ok v) ∨ IsStrict E name []) :
    (do
      let vals ← results.mapM id
      evalFunctionWithVals E name vals) = callFunction E name names results := by
  cases hvals : results.mapM id with
  | ok vals =>
    have hresults : results = vals.map .ok := by
      have hall := mapM_eq_ok.mp hvals
      clear hvals h
      induction hall with
      | nil => rfl
      | cons hab _ ih => rw [List.map_cons, ← ih, ← hab]; rfl
    rw [ok_bind, evalFunctionWithVals_eq, hresults]
    exact congrFun (hnames _ _) _
  | error err =>
    rw [error_bind]
    obtain hall | hstrict := h
    · have hok : ∃ vals, results.mapM id = .ok vals := by
        clear hvals
        induction results with
        | nil => exact ⟨[], rfl⟩
        | cons result results ih =>
          obtain ⟨⟨v, hv⟩, hall⟩ := List.forall_mem_cons.mp hall
          obtain ⟨vals, hvals⟩ := ih hall
          exact ⟨v :: vals, by rw [List.mapM_cons, hv, hvals]; rfl⟩
      obtain ⟨vals, hok⟩ := hok
      cases hok.symm.trans hvals
    · rw [hnames names []]
      exact (hstrict results err hvals).symm

/-- Without aggregates, the value is the same in rows that differ in fresh variables only. -/
theorem Avoids.evalExpr_replace {e : Expr} (h : Avoids E (fun x => ∃ name args, x = fresh name args) e)
    (hagg : exprHasAggregate e = false) {r r' : Row E.ch} (hr : AgreeOn (fun x => ¬∃ name args, x = fresh name args) r r') :
    evalExpr E e r params = evalExpr E (replaceAggregates fresh e) r' params := by
  rw [replaceAggregates_of_free hagg]
  exact h.dependsOn hagg params r r' hr

theorem ExtendedRow.child {e c : Expr} (h : ExtendedRow E agg fresh first rest params row' e)
    (hcall : isCall isAggregateName e = false) (hc : c ∈ e.children) : ExtendedRow E agg fresh first rest params row' c :=
  ⟨h.others, fun name args h' => h.bound name args (.inside hcall hc h')⟩

theorem orNull_eq {r : Exec (Value E.ch)} (h : ∀ message, r ≠ .error (.error message)) : orNull E r = r := by
  unfold orNull
  split
  · next message => exact absurd rfl (h message)
  · rfl

/-- The two evaluators keep and project an item in the same way, if the predicate does not fail on it. -/
theorem kept_item_eq {predicate projection : Option Expr} {r r' : Row E.ch} {val : Value E.ch}
    (hok : ∀ pred ∈ predicate, ∀ message, evalExpr E pred r params ≠ .error (.error message))
    (hpred : ∀ pred ∈ predicate, evalExpr E pred r params = evalExpr E (replaceAggregates fresh pred) r' params)
    (hproj : ∀ proj ∈ projection, evalExpr E proj r params = evalExpr E (replaceAggregates fresh proj) r' params) :
    (do
      let keep ←
        match predicate with
        | some pred => do pure (decide ((← orNull E (evalExpr E pred r params)).truthy3 = some true))
        | none => pure true
      if keep then
        match projection with
        | some proj => do return some (← evalExpr E proj r params).toJson
        | none => return some val.toJson
      else return none) =
    (do
      if ← (match predicate.map (replaceAggregates fresh) with
        | some pred => do return decide ((← evalExpr E pred r' params).truthy3 = some true)
        | none => return true) then
        return some (← (match projection.map (replaceAggregates fresh) with
          | some proj => do return (← evalExpr E proj r' params).toJson
          | none => return val.toJson))
      else return none) := by
  cases predicate with
  | none =>
    cases projection with
    | none => rfl
    | some proj => simp [hproj proj rfl]
  | some pred =>
    have hkeep : orNull E (evalExpr E pred r params) = evalExpr E (replaceAggregates fresh pred) r' params :=
      (orNull_eq (hok pred rfl)).trans (hpred pred rfl)
    simp only [Option.map_some, bind_assoc, pure_bind, hkeep]
    refine bind_congr fun w => ?_
    cases projection with
    | none => rfl
    | some proj => simp [hproj proj rfl]

end

/-! ## A count -/

namespace AggregateEvaluationAux

/-- An engine where every function is unknown. -/
def noFunctions : Engine :=
  { Engine.bare with evalFunction := fun name _ => .done (.error (.error ("UnknownFunction: " ++ name ++ "()"))) }

/-- `count(*)`. -/
def countRows (_ : String) (_ : List Expr) (rows : List (Row noFunctions.ch)) (_ : Params) : Exec (Value noFunctions.ch) :=
  .ok (.int (Int64.ofNat rows.length))

def count : Expr := .functionCall "count" [.star]

/-- `count(*) > 0 AND true`. -/
def someRows : Expr := .and (.compare count .gt (.intLit 0)) (.boolLit true)

/-- `count(*) IN [1]`. -/
def oneRow : Expr := .inList count (.list [.intLit 1])

/-- The row with the count of one row. -/
def countedRow : Row noFunctions.ch := (∅ : Row noFunctions.ch).insert "c" (.int 1)

theorem avoids_of {F : String → Prop} {e : Expr} (hvar : ∀ x, e ≠ .var x) (hbinder : e.binder = none)
    (hclosed : e.isOpaque = false) (hchildren : isCall isAggregateName e = false → ∀ c ∈ e.children, Avoids E F c) :
    Avoids E F e :=
  .mk (fun x hx => absurd hx (hvar x)) (fun x hx => by rw [hbinder] at hx; cases hx)
    (fun h => absurd (hclosed.symm.trans h) Bool.false_ne_true) hchildren

end AggregateEvaluationAux

open AggregateEvaluationAux

theorem isAggregateName_count : isAggregateName "count" = true := by decide +kernel

theorem exprHasAggregate_count : exprHasAggregate count = true := by
  rw [exprHasAggregate_eq]
  exact Bool.or_eq_true_iff.mpr (.inl isAggregateName_count)

end PgEddy
