import PgEddy.Aggregation
import PgEddy.Eval

/-!
# Evaluating over a group

An item of a projection with an aggregate is evaluated over a group of rows, by an evaluator of its own: the aggregate calls
take the group, and what it does not know it leaves to the evaluation of expressions in the first row. What an aggregate call
computes is a parameter.
-/

namespace PgEddy

/-! ## The ambiguity check -/

mutual

/-- The variables, and the properties of variables, that stand outside aggregate calls. -/
def collectFreeVarRefs : Expr → List Expr
  | .var v => [.var v]
  | .property base key =>
    match base with
    | .var v => [.property (.var v) key]
    | base => collectFreeVarRefs base
  | .functionCall name args => if isAggregateName name then [] else collectEach args
  | .arith left _ right => collectFreeVarRefs left ++ collectFreeVarRefs right
  | .compare left _ right => collectFreeVarRefs left ++ collectFreeVarRefs right
  | .and left right => collectFreeVarRefs left ++ collectFreeVarRefs right
  | .or left right => collectFreeVarRefs left ++ collectFreeVarRefs right
  | .xor left right => collectFreeVarRefs left ++ collectFreeVarRefs right
  | .startsWith left right => collectFreeVarRefs left ++ collectFreeVarRefs right
  | .endsWith left right => collectFreeVarRefs left ++ collectFreeVarRefs right
  | .contains left right => collectFreeVarRefs left ++ collectFreeVarRefs right
  | .regex left right => collectFreeVarRefs left ++ collectFreeVarRefs right
  | .inList left right => collectFreeVarRefs left ++ collectFreeVarRefs right
  | .not e => collectFreeVarRefs e
  | .neg e => collectFreeVarRefs e
  | .isNull e => collectFreeVarRefs e
  | .isNotNull e => collectFreeVarRefs e
  | .hasLabel e _ => collectFreeVarRefs e
  | .subscript left right => collectFreeVarRefs left ++ collectFreeVarRefs right
  | .list items => collectEach items
  | .mapLiteral pairs => collectPairs pairs
  | .caseSearched branches else_ =>
    collectBranches branches ++
      match else_ with
      | some e => collectFreeVarRefs e
      | none => []
  | .caseSimple test branches else_ =>
    collectFreeVarRefs test ++ (collectBranches branches ++
      match else_ with
      | some e => collectFreeVarRefs e
      | none => [])
  | _ => []

def collectEach : List Expr → List Expr
  | [] => []
  | e :: es => collectFreeVarRefs e ++ collectEach es

def collectBranches : List (Expr × Expr) → List Expr
  | [] => []
  | (head, then_) :: rest => collectFreeVarRefs head ++ (collectFreeVarRefs then_ ++ collectBranches rest)

def collectPairs : List (String × Expr) → List Expr
  | [] => []
  | (_, e) :: rest => collectFreeVarRefs e ++ collectPairs rest

end

/-- Variables and properties of one name, by a way to lower a name. -/
def exprStructuralEq (toLowercase : String → String) : Expr → Expr → Bool
  | .var x, .var y => toLowercase x = toLowercase y
  | .property base key, .property base' key' => toLowercase key = toLowercase key' && exprStructuralEq toLowercase base base'
  | _, _ => false

/-- Each variable outside the aggregate calls is a grouping key. -/
def passesAmbiguityCheck (toLowercase : String → String) (keyExprs : List Expr) (e : Expr) : Bool :=
  (collectFreeVarRefs e).all fun fref => keyExprs.any fun k => exprStructuralEq toLowercase k fref

/-! ## The evaluator -/

section

variable (E : Engine)

/-- The name of an argument of `eval_function_with_vals`. -/
def fnArg (i : Nat) : String := "__fn_arg_" ++ toString i

/-- A function of values: it is called on variables of a row made for them, without parameters. -/
def evalFunctionWithVals (name : String) (vals : List (Value E.ch)) : Exec (Value E.ch) :=
  evalExpr E (.functionCall name (vals.zipIdx.map fun p => .var (fnArg p.2)))
    (vals.zipIdx.foldl (fun row p => row.insert (fnArg p.2) p.1) ∅) ∅

/-- `unwrap_or(Value::Null)`. -/
def orNull : Exec (Value E.ch) → Exec (Value E.ch)
  | .error (.error _) => .ok .null
  | r => r

variable (evalAggregateCall : String → List Expr → List (Row E.ch) → Params → Exec (Value E.ch))
  (groupRows : List (Row E.ch)) (fallbackRow : Row E.ch) (params : Params)

/-- The row of what is not evaluated over the group. -/
def groupRow : Row E.ch := groupRows.head?.getD fallbackRow

mutual

/-- The value of an expression over a group. -/
def evalWithAgg (e : Expr) : Exec (Value E.ch) :=
  if !exprHasAggregate e then evalExpr E e (groupRow E groupRows fallbackRow) params
  else
    match e with
    | .functionCall name args =>
      if isAggregateName name then evalAggregateCall name args groupRows params
      else do evalFunctionWithVals E name (← evalEachWithAgg args)
    | .arith left op right => do
      let lv ← evalWithAgg left
      let rv ← evalWithAgg right
      E.evalArith lv op rv
    | .compare left op right => do
      let lv ← evalWithAgg left
      let rv ← evalWithAgg right
      return .ofBool? (← compareValues E lv op rv)
    -- The right side is not evaluated if the left one decides.
    | .and left right => do
      let lv ← evalWithAgg left
      match ← lv.requireBool with
      | some false => return .bool false
      | some true => do
        let rv ← evalWithAgg right
        return .ofBool? (← rv.requireBool)
      | none => do
        let rv ← evalWithAgg right
        match ← rv.requireBool with
        | some false => return .bool false
        | _ => return .null
    | .or left right => do
      let lv ← evalWithAgg left
      match ← lv.requireBool with
      | some true => return .bool true
      | some false => do
        let rv ← evalWithAgg right
        return .ofBool? (← rv.requireBool)
      | none => do
        let rv ← evalWithAgg right
        match ← rv.requireBool with
        | some true => return .bool true
        | _ => return .null
    | .xor left right => do
      let lv ← evalWithAgg left
      let rv ← evalWithAgg right
      evalLogic E xor3 lv rv
    | .not inner => do
      let v ← evalWithAgg inner
      return .ofBool? ((← v.requireBool).map fun b => !b)
    | .isNull inner => do return .bool (← evalWithAgg inner).isNull
    | .isNotNull inner => do return .bool !(← evalWithAgg inner).isNull
    | .neg inner => do return evalNeg E (← evalWithAgg inner)
    | .caseSearched branches else_ => do
      match ← evalBranchesWithAgg branches with
      | some v => return v
      | none =>
        match else_ with
        | some e => evalWithAgg e
        | none => return .null
    | .mapLiteral pairs => do return .json (.object (Value.jsonMap (← evalPairsWithAgg pairs)))
    | .list items => do return .json (.array ((← evalEachWithAgg items).map Value.toJson))
    -- The predicate and the projection are evaluated in the first row, and an error of the predicate counts as null.
    | .listComprehension x listExpr predicate projection => do
      match ← evalWithAgg listExpr with
      | .json (.array items) =>
        let out ← items.filterMapM fun item => do
          let val ← readJson E.ch item
          let iterRow := (groupRow E groupRows fallbackRow).insert x val
          let keep ←
            match predicate with
            | some pred => do pure (decide ((← orNull E (evalExpr E pred iterRow params)).truthy3 = some true))
            | none => pure true
          if keep then
            match projection with
            | some proj => do return some (← evalExpr E proj iterRow params).toJson
            | none => return some val.toJson
          else return none
        return .json (.array out)
      | .null => return .json (.array [])
      | _ => return .null
    | .listPredicate kind x listExpr predicate => do
      match ← evalWithAgg listExpr with
      | .json (.array items) =>
        let answers ← items.mapM fun item => do
          let val ← readJson E.ch item
          return (← evalExpr E predicate ((groupRow E groupRows fallbackRow).insert x val) params).truthy3
        return .ofBool? (quantify kind items.length (answers.count (some true)) (answers.count none))
      | .null => return .null
      | _ => return .bool false
    | other => evalExpr E other (groupRow E groupRows fallbackRow) params

def evalEachWithAgg : List Expr → Exec (List (Value E.ch))
  | [] => .ok []
  | e :: es => do
    let v ← evalWithAgg e
    let vs ← evalEachWithAgg es
    return v :: vs

def evalBranchesWithAgg : List (Expr × Expr) → Exec (Option (Value E.ch))
  | [] => .ok none
  | (cond, then_) :: rest => do
    let cv ← evalWithAgg cond
    if cv.truthy3 = some true then return some (← evalWithAgg then_) else evalBranchesWithAgg rest

def evalPairsWithAgg : List (String × Expr) → Exec (List (String × Json))
  | [] => .ok []
  | (key, e) :: rest => do
    let v ← evalWithAgg e
    let pairs ← evalPairsWithAgg rest
    return (key, v.toJson) :: pairs

end

end

end PgEddy
