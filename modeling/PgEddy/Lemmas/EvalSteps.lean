import PgEddy.Lemmas.Dependence
import PgEddy.Lemmas.Syntax
import PgEddy.Lib.Fallible

/-!
# One step of evaluation

The value of an expression is made from the values of its parts. `evalStep` says how, with the values of the parts given, so
that two evaluations of expressions of one shape can be compared part by part.
-/

namespace PgEddy

open Fallible

variable (E : Engine)

/-- The first branch whose head passes a test, of branches with their values. -/
def pickBranch (test : Value E.ch → Exec Bool) : List (Exec (Value E.ch) × Exec (Value E.ch)) → Exec (Option (Value E.ch))
  | [] => .ok none
  | (head, then_) :: rest => do
    if ← test (← head) then return some (← then_) else pickBranch test rest

/-- The value of a part that may be missing. -/
def optionally (f : Expr → Exec (Value E.ch)) : Option Expr → Exec (Value E.ch)
  | some e => f e
  | none => return .null

/-- The variables among the arguments of a function, by place. -/
def argNames (args : List Expr) : List (Option String) := args.map fun | .var v => some v | _ => none

/-- A function of its arguments' results. -/
def callFunction (name : String) (names : List (Option String)) (results : List (Exec (Value E.ch))) : Exec (Value E.ch) :=
  if name.toLower = "id" then
    match results with
    | [result] => do
      match ← result with
      | .node nodeId .. => return .int nodeId
      | .edge edgeId .. => return .int edgeId
      | _ => return .null
    | _ => .error (.error "id() takes exactly 1 argument")
  else (E.evalFunction name.toLower names).run results

/-- The items of a list comprehension. -/
def comprehend (row : Row E.ch) (var : String) (keep : Row E.ch → Exec Bool) (project : Value E.ch → Row E.ch → Exec Json)
    (items : List Json) : Exec (Value E.ch) := do
  let out ← items.filterMapM fun item => do
    let val ← readJson E.ch item
    let innerRow := row.insert var val
    if ← keep innerRow then return some (← project val innerRow) else return none
  return .json (.array out)

/-- The slice of a list between two bounds that are evaluated in turn. -/
def listSlice (items : List Json) (start stop : Exec (Option Nat)) : Exec (Value E.ch) := do
  match ← start with
  | none => return .null
  | some start =>
    match ← stop with
    | none => return .null
    | some stop => return .json (.array ((items.drop start).take (stop - start)))

/-- How the value of an expression is made from those of its parts, each in a row. -/
def evalStep (f : Expr → Row E.ch → Exec (Value E.ch)) (e : Expr) (row : Row E.ch) (params : Params) : Exec (Value E.ch) :=
  match e with
  | .property base key => do evalProperty E (← f base row) key
  | .compare left op right => do
    let l ← f left row
    let r ← f right row
    return .ofBool? (← compareValues E l op r)
  | .and left right => do
    let l ← f left row
    let r ← f right row
    evalLogic E and3 l r
  | .or left right => do
    let l ← f left row
    let r ← f right row
    evalLogic E or3 l r
  | .xor left right => do
    let l ← f left row
    let r ← f right row
    evalLogic E xor3 l r
  | .not inner => do
    let v ← f inner row
    return .ofBool? ((← v.requireBool).map fun b => !b)
  | .isNull inner => do return .bool (← f inner row).isNull
  | .isNotNull inner => do return .bool !(← f inner row).isNull
  | .hasLabel inner labels => do return evalHasLabel E (← f inner row) labels
  | .arith left op right => do
    let l ← f left row
    let r ← f right row
    E.evalArith l op r
  | .neg inner => do return evalNeg E (← f inner row)
  | .functionCall name args => callFunction E name (argNames args) (args.map fun a => f a row)
  | .list items => do return .json (.array ((← (items.map fun e => f e row).mapM id).map Value.toJson))
  | .inList left right => do
    let val ← f left row
    let items ← f right row
    evalIn E val items
  | .startsWith left right => do
    let l ← f left row
    let r ← f right row
    return evalStrings E (fun s p => p.toList.isPrefixOf s.toList) l r
  | .endsWith left right => do
    let l ← f left row
    let r ← f right row
    return evalStrings E (fun s p => p.toList.isSuffixOf s.toList) l r
  | .contains left right => do
    let l ← f left row
    let r ← f right row
    return evalStrings E (fun s p => s.toList.tails.any fun t => p.toList.isPrefixOf t) l r
  | .regex left right => do
    let l ← f left row
    let r ← f right row
    return evalStrings E E.regexp l r
  | .caseSearched branches else_ => do
    match ← pickBranch E (fun c => return c.truthy3 = some true) (branches.map fun b => (f b.1 row, f b.2 row)) with
    | some v => return v
    | none => optionally E (fun e => f e row) else_
  | .caseSimple test branches else_ => do
    let t ← f test row
    match ← pickBranch E (fun w => valuesEqual E t w) (branches.map fun b => (f b.1 row, f b.2 row)) with
    | some v => return v
    | none => optionally E (fun e => f e row) else_
  | .listComprehension var listExpr predicate projection => do
    comprehend E row var
      (fun innerRow =>
        match predicate with
        | some pred => do return decide ((← f pred innerRow).truthy3 = some true)
        | none => return true)
      (fun val innerRow =>
        match projection with
        | some proj => do return (← f proj innerRow).toJson
        | none => return val.toJson)
      (itemsOf E (← f listExpr row))
  | .listPredicate kind var listExpr predicate => do
    match ← f listExpr row with
    | .json (.array items) =>
      let answers ← items.mapM fun item => do
        let val ← readJson E.ch item
        return (← f predicate (row.insert var val)).truthy3
      return .ofBool? (quantify kind items.length (answers.count (some true)) (answers.count none))
    | .null => return .null
    | _ => return .bool false
  | .subscript left right => do
    let l ← f left row
    let i ← f right row
    evalSubscript E l i
  | .listSlice listExpr from_ to_ => do
    match ← f listExpr row with
    | .json (.array items) =>
      listSlice E items
        (match from_ with
          | some e => do return sliceBound E items.length 0 (← f e row)
          | none => return some 0)
        (match to_ with
          | some e => do return sliceBound E items.length items.length (← f e row)
          | none => return some items.length)
    | _ => return .json (.array [])
  | .mapLiteral entries => do
    return .json (.object (Value.jsonMap (← entries.mapM fun e => do return (e.1, (← f e.2 row).toJson))))
  | e => evalExpr E e row params

theorem evalEach_eq_map (es : List Expr) (row : Row E.ch) (params : Params) :
    evalEach E es row params = es.map fun e => evalExpr E e row params := by
  induction es with
  | nil => rfl
  | cons e es ih => rw [evalEach, ih, List.map_cons]

theorem evalBranches_eq_pick (test : Value E.ch → Exec Bool) (branches : List (Expr × Expr)) (row : Row E.ch) (params : Params) :
    evalBranches E test branches row params =
      pickBranch E test (branches.map fun b => (evalExpr E b.1 row params, evalExpr E b.2 row params)) := by
  induction branches with
  | nil => rfl
  | cons b branches ih =>
    obtain ⟨head, then_⟩ := b
    rw [evalBranches, List.map_cons, pickBranch, ih]

theorem evalEntries_eq_mapM (entries : List (String × Expr)) (row : Row E.ch) (params : Params) :
    evalEntries E entries row params = entries.mapM fun e => do return (e.1, (← evalExpr E e.2 row params).toJson) := by
  induction entries with
  | nil => rfl
  | cons e entries ih =>
    obtain ⟨key, e⟩ := e
    rw [evalEntries, List.mapM_cons, ih]
    cases evalExpr E e row params with
    | error err => rfl
    | ok v => rfl

/-- A comprehension keeps and projects its items as one step does. -/
theorem keep_project (items : List Json) (row : Row E.ch) (x : String) (predicate projection : Option Expr) (params : Params) :
    (items.filterMapM fun item => do
      let val ← readJson E.ch item
      let innerRow := row.insert x val
      let keep ←
        match predicate with
        | some pred => do pure (decide ((← evalExpr E pred innerRow params).truthy3 = some true))
        | none => pure true
      if keep then
        match projection with
        | some proj => do return some (← evalExpr E proj innerRow params).toJson
        | none => return some val.toJson
      else return none) =
    items.filterMapM fun item => do
      let val ← readJson E.ch item
      let innerRow := row.insert x val
      if ← (match predicate with
        | some pred => do return decide ((← evalExpr E pred innerRow params).truthy3 = some true)
        | none => return true) then
        return some (← (match projection with
          | some proj => do return (← evalExpr E proj innerRow params).toJson
          | none => return val.toJson))
      else return none := by
  refine congrArg (List.filterMapM · items) (funext fun item => bind_congr fun val => ?_)
  cases predicate with
  | none => cases projection <;> simp
  | some pred =>
    simp only [bind_assoc, pure_bind]
    refine bind_congr fun w => ?_
    cases projection <;> simp

/-- Evaluation is one step over the values of the parts. -/
theorem evalExpr_eq_step (e : Expr) (row : Row E.ch) (params : Params) :
    evalExpr E e row params = evalStep E (fun c r => evalExpr E c r params) e row params := by
  cases e with
  | functionCall name args =>
    rw [evalStep, ← evalEach_eq_map]
    rfl
  | list items =>
    rw [evalStep, ← evalEach_eq_map]
    rfl
  | caseSearched branches else_ =>
    rw [evalStep, ← evalBranches_eq_pick]
    cases else_ <;> simp only [evalExpr, optionally] <;> rfl
  | caseSimple test branches else_ =>
    simp only [evalStep, ← evalBranches_eq_pick]
    cases else_ <;> simp only [evalExpr, optionally] <;> rfl
  | mapLiteral entries =>
    rw [evalStep, ← evalEntries_eq_mapM]
    rfl
  | listComprehension x listExpr predicate projection =>
    simp only [evalExpr, evalStep, comprehend]
    exact bind_congr fun l => congrArg (· >>= _) (keep_project E _ row x predicate projection params)
  | listSlice listExpr from_ to_ =>
    cases from_ <;> cases to_ <;> simp only [evalExpr, evalStep, listSlice, bind_assoc, pure_bind] <;> rfl
  | _ => rfl

/-! ## Steps that agree -/

variable {E}

theorem pickBranch_congr {test : Value E.ch → Exec Bool} {f g : Expr → Exec (Value E.ch)} {branches : List (Expr × Expr)}
    (h : ∀ c ∈ branches.flatMap fun b => [b.1, b.2], f c = g c) :
    pickBranch E test (branches.map fun b => (f b.1, f b.2)) = pickBranch E test (branches.map fun b => (g b.1, g b.2)) := by
  refine congrArg (pickBranch E test) (List.map_congr_left fun b hb => ?_)
  rw [h b.1 (List.mem_flatMap.mpr ⟨b, hb, by simp⟩), h b.2 (List.mem_flatMap.mpr ⟨b, hb, by simp⟩)]

theorem optionally_congr {f g : Expr → Exec (Value E.ch)} {o : Option Expr} (h : ∀ c ∈ o.toList, f c = g c) :
    optionally E f o = optionally E g o := by
  cases o with
  | none => rfl
  | some c => exact h c (by simp)

/-- The value of an expression follows from those of its parts, in the rows where they stand. -/
theorem evalStep_congr {f g : Expr → Row E.ch → Exec (Value E.ch)} {e : Expr} {row row' : Row E.ch} {params : Params}
    (hclosed : e.isOpaque = false) (hvar : ∀ x, e ≠ .var x) (houter : ∀ c ∈ e.outer, f c row = g c row')
    (hbody : ∀ x, e.binder = some x → ∀ c ∈ e.body, ∀ v, f c (row.insert x v) = g c (row'.insert x v)) :
    evalStep E f e row params = evalStep E g e row' params := by
  cases e with
  | var x => exact absurd rfl (hvar x)
  | star | shortestPath | patternComprehension | exists_ => cases hclosed
  | intLit | floatLit | stringLit | boolLit | nullLit | parameter => rfl
  | functionCall name args =>
    have hargs : args.map (f · row) = args.map (g · row') := List.map_congr_left houter
    simp only [evalStep, hargs]
  | list items =>
    have hitems : items.map (f · row) = items.map (g · row') := List.map_congr_left houter
    simp only [evalStep, hitems]
  | mapLiteral entries =>
    refine congrArg (· >>= _) (mapM_congr fun entry hentry => ?_)
    rw [houter entry.2 (List.mem_map_of_mem hentry)]
  | caseSearched branches else_ =>
    simp only [evalStep]
    rw [pickBranch_congr fun c hc => houter c (List.mem_append_left _ hc),
      optionally_congr fun c hc => houter c (List.mem_append_right _ hc)]
  | caseSimple test branches else_ =>
    simp only [evalStep, houter test List.mem_cons_self]
    refine bind_congr fun t => ?_
    rw [pickBranch_congr fun c hc => houter c (List.mem_cons_of_mem _ (List.mem_append_left _ hc)),
      optionally_congr fun c hc => houter c (List.mem_cons_of_mem _ (List.mem_append_right _ hc))]
  | listComprehension x listExpr predicate projection =>
    simp only [evalStep, comprehend, houter listExpr (List.mem_singleton.mpr rfl)]
    refine bind_congr fun l => congrArg (· >>= _) (congrArg (List.filterMapM · _) (funext fun item => bind_congr fun val => ?_))
    have hpredicate : ∀ c ∈ predicate.toList, f c (row.insert x val) = g c (row'.insert x val) := fun c hc =>
      hbody x rfl c (List.mem_append_left _ hc) val
    have hprojection : ∀ c ∈ projection.toList, f c (row.insert x val) = g c (row'.insert x val) := fun c hc =>
      hbody x rfl c (List.mem_append_right _ hc) val
    cases predicate <;> cases projection <;> simp_all only [Option.toList_some, Option.toList_none, List.mem_singleton, forall_eq]
  | listPredicate kind x listExpr predicate =>
    simp only [evalStep, houter listExpr (List.mem_singleton.mpr rfl), hbody x rfl predicate (List.mem_singleton.mpr rfl)]
  | listSlice listExpr from_ to_ =>
    simp only [evalStep, houter listExpr List.mem_cons_self]
    refine bind_congr fun l => ?_
    have hfrom : ∀ c ∈ from_.toList, f c row = g c row' := fun c hc =>
      houter c (List.mem_cons_of_mem _ (List.mem_append_left _ hc))
    have hto : ∀ c ∈ to_.toList, f c row = g c row' := fun c hc =>
      houter c (List.mem_cons_of_mem _ (List.mem_append_right _ hc))
    cases from_ <;> cases to_ <;> simp_all only [Option.toList_some, Option.toList_none, List.mem_singleton, forall_eq]
  | property | not | isNull | isNotNull | neg | hasLabel =>
    simp only [evalStep, houter _ (List.mem_singleton.mpr rfl)]
  | _ =>
    simp only [evalStep, houter _ List.mem_cons_self, houter _ (List.mem_cons_of_mem _ List.mem_cons_self)]

/-- The value of an expression with its parts replaced. -/
theorem evalStep_mapChildren {f : Expr → Row E.ch → Exec (Value E.ch)} {s : Expr → Expr} {e : Expr} {row : Row E.ch}
    {params : Params} (hclosed : e.isOpaque = false) (hvar : ∀ x, e ≠ .var x)
    (hargs : ∀ name args, e = .functionCall name args →
      callFunction E name (argNames (args.map s)) = callFunction E name (argNames args)) :
    evalStep E f (e.mapChildren s) row params = evalStep E (fun c => f (s c)) e row params := by
  cases e with
  | var x => exact absurd rfl (hvar x)
  | star | shortestPath | patternComprehension | exists_ => cases hclosed
  | functionCall name args =>
    simp only [Expr.mapChildren, evalStep, hargs name args rfl, List.map_map]
    rfl
  | list items =>
    simp only [Expr.mapChildren, evalStep, List.map_map]
    rfl
  | mapLiteral entries =>
    simp only [Expr.mapChildren, evalStep, List.mapM_map]
    rfl
  | caseSearched branches else_ =>
    simp only [Expr.mapChildren, evalStep, List.map_map]
    cases else_ <;> rfl
  | caseSimple test branches else_ =>
    simp only [Expr.mapChildren, evalStep, List.map_map]
    cases else_ <;> rfl
  | listComprehension x listExpr predicate projection =>
    cases predicate <;> cases projection <;> rfl
  | listSlice listExpr from_ to_ =>
    cases from_ <;> cases to_ <;> rfl
  | _ => rfl

/-! ## Dependence through the parts -/

theorem DependsOn.mono {V W : String → Prop} {e : Expr} (h : DependsOn E V e) (hVW : ∀ x, V x → W x) : DependsOn E W e :=
  fun params row row' hr => h params row row' fun x hx => hr x (hVW x hx)

/-- An expression depends on what its parts depend on, but for the variable that it binds. -/
theorem dependsOn_parts {V : String → Prop} {e : Expr} (hclosed : e.isOpaque = true → DependsOn E V e)
    (hvar : ∀ x, e = .var x → V x) (houter : ∀ c ∈ e.outer, DependsOn E V c)
    (hbody : ∀ x, e.binder = some x → ∀ c ∈ e.body, DependsOn E (fun y => V y ∨ y = x) c) : DependsOn E V e := by
  cases ho : e.isOpaque with
  | true => exact hclosed ho
  | false =>
    by_cases hv : ∃ x, e = .var x
    · obtain ⟨x, rfl⟩ := hv
      exact dependsOn_var (hvar x rfl)
    · intro params row row' hr
      rw [evalExpr_eq_step, evalExpr_eq_step]
      refine evalStep_congr ho (fun x hx => hv ⟨x, hx⟩) (fun c hc => houter c hc params row row' hr) fun x hx c hc v => ?_
      refine hbody x hx c hc params _ _ fun y hy => ?_
      rw [RowAux.get_insert, RowAux.get_insert]
      split
      · rfl
      · next hne => exact hr y (hy.resolve_right fun h => hne h.symm)

end PgEddy
