import PgEddy.Ast
import PgEddy.Value
import Std.Data.ExtTreeMap

/-!
# Evaluating expressions

An expression is evaluated in a row of bindings and in the parameters of the query. What other parts of the program decide is
a parameter of the model, the `Engine`: the built-in functions, arithmetic, the comparison of structured values, the texts of
regular expressions, and the plans that a subquery or a pattern inside an expression runs.
-/

namespace PgEddy

open Binary64

/-! ## Results -/

/-- How an evaluation fails. -/
inductive Failure where
  /-- An `ExecError`. -/
  | error (message : String)
  | panic (p : Panic)
  /-- An index past the end of a list, which panics. -/
  | index
  /-- Arithmetic on integers that leaves their range, which panics. -/
  | overflow
  /-- `unwrap` of nothing, which panics. -/
  | unwrap
  deriving DecidableEq

abbrev Exec (α : Type) := Except Failure α

/-- The bindings of a row. -/
abbrev Row (ch : Chrono) := Std.ExtTreeMap String (Value ch)

/-- The parameters of a query, and the bindings of outer rows that reach an inner plan. -/
abbrev Params := Std.ExtTreeMap String Json

def readJson (ch : Chrono) (v : Json) : Exec (Value ch) :=
  match jsonToValue ch v with
  | .ok val => .ok val
  | .error p => .error (.panic p)

/-! ## Values -/

namespace Value

variable {ch : Chrono}

def nodeId : Value ch → Option Int64
  | .node nodeId .. => some nodeId
  | _ => none

def edgeId : Value ch → Option Int64
  | .edge edgeId .. => some edgeId
  | _ => none

def isNull : Value ch → Bool
  | .null => true
  | _ => false

def isTruthy : Value ch → Bool
  | .bool b => b
  | .null => false
  | .int i => i != 0
  | .str s => s != ""
  | _ => true

/-- Three-valued truth: none for null. -/
def truthy3 (v : Value ch) : Option Bool := if v.isNull then none else some v.isTruthy

/-- The name of a value's type in the texts of errors. -/
def valueTypeName : Value ch → String
  | .bool _ => "Boolean"
  | .int _ => "Integer"
  | .float _ => "Float"
  | .str _ => "String"
  | .null => "Null"
  | .node .. => "Node"
  | .edge .. => "Relationship"
  | .path .. => "Path"
  | .json (.array _) => "List"
  | .json (.object _) => "Map"
  | .json _ => "Any"
  | .temporal _ => "DateTime"
  | .duration _ => "Duration"

/-- The operands of the logical operators: a boolean or null. -/
def requireBool : Value ch → Exec (Option Bool)
  | .bool b => .ok (some b)
  | .null => .ok none
  | other => .error (.error ("TypeError: expected Boolean but got " ++ other.valueTypeName))

def ofBool? : Option Bool → Value ch
  | some b => .bool b
  | none => .null

end Value

/-- What a built-in function does with its arguments: it evaluates them one at a time, as far as it needs them. -/
inductive Ask (ch : Chrono) where
  | done (result : Exec (Value ch))
  | arg (i : Nat) (next : Value ch → Ask ch)

/-- A function run on the results of its arguments. -/
def Ask.run {ch : Chrono} (args : List (Exec (Value ch))) : Ask ch → Exec (Value ch)
  | .done result => result
  | .arg i next =>
    match args[i]? with
    | some (.ok v) => (next v).run args
    | some (.error f) => .error f
    | none => .error .index

/-- The parts of evaluation that the model takes as they are. -/
structure Engine where
  ch : Chrono
  temporalGetProperty : TemporalValue ch → String → Value ch
  durationGetProperty : CypherDuration → String → Value ch
  tryParseTemporalStr : String → Exec (Option (TemporalValue ch))
  /-- The comparison of paths, temporal values, durations, lists and maps with their like. -/
  compareDeep : Value ch → CmpOp → Value ch → Exec (Option Bool)
  evalArith : Value ch → ArithOp → Value ch → Exec (Value ch)
  /-- The `~` of the database. -/
  regexp : String → String → Bool
  /-- The functions other than `id`, by their names in lower case and the variables among their arguments. -/
  evalFunction : String → List (Option String) → Ask ch
  shortestPath : Bool → Pattern → Row ch → Params → Exec (Value ch)
  patternComprehension : Option String → Pattern → Option Expr → Expr → Row ch → Params → Exec (Value ch)
  /-- The inner plan has a row that agrees with the outer one. -/
  existsRow : Query → Row ch → Params → Exec Bool

/-! ## Comparing values -/

/-- The operator on numbers of one order. -/
def cmpBy {α : Type} [LT α] [DecidableEq α] [DecidableLT α] (a : α) (op : CmpOp) (b : α) : Bool :=
  match op with
  | .eq => a = b
  | .neq => a ≠ b
  | .lt => a < b
  | .gt => b < a
  | .le => a < b || a = b
  | .ge => b < a || a = b

/-- The operator on values of different types. -/
def cmpMismatch : CmpOp → Option Bool
  | .eq => some false
  | .neq => some true
  | _ => none

def floatCmp (a : F64) (op : CmpOp) (b : F64) : Bool := cmpBy a.rank op b.rank

variable (E : Engine)

/-- The comparison of two values. It is null where they cannot be compared. -/
def compareValues (left : Value E.ch) (op : CmpOp) (right : Value E.ch) : Exec (Option Bool) :=
  if left.isNull || right.isNull then .ok none
  else
    match left, right with
    | .float a, .float b =>
      if a.isNan || b.isNan then .ok (some (op = .neq)) else .ok (some (floatCmp a op b))
    | .int a, .float b => if b.isNan then .ok (some (op = .neq)) else .ok (some (floatCmp (.ofInt a.toInt) op b))
    | .float a, .int b => if a.isNan then .ok (some (op = .neq)) else .ok (some (floatCmp a op (.ofInt b.toInt)))
    | .int a, .int b => .ok (some (cmpBy a op b))
    | .str a, .str b => .ok (some (cmpBy a op b))
    | .bool a, .bool b => .ok (some (cmpBy a.toNat op b.toNat))
    | .node a .., .node b .. => .ok (some (cmpBy a op b))
    | .edge a .., .edge b .. => .ok (some (cmpBy a op b))
    | .temporal a, .str b => .ok (some (cmpBy a.iso op b))
    | .str a, .temporal b => .ok (some (cmpBy a op b.iso))
    | .duration a, .str b => .ok (some (cmpBy a.iso op b))
    | .str a, .duration b => .ok (some (cmpBy a op b.iso))
    | .path .., .path .. => E.compareDeep left op right
    | .temporal _, .temporal _ => E.compareDeep left op right
    | .duration _, .duration _ => E.compareDeep left op right
    | .json (.array _), .json (.array _) => E.compareDeep left op right
    | .json (.object _), .json (.object _) => E.compareDeep left op right
    | _, _ => .ok (cmpMismatch op)

mutual

/-- Two items of lists are equal: lists item by item, other values by the comparison. -/
def itemsEqual : Json → Json → Exec Bool
  | .array xs, .array ys =>
    if isPathArray xs || isPathArray ys then do
      let xv ← readJson E.ch (.array xs)
      let yv ← readJson E.ch (.array ys)
      return (← compareValues E xv .eq yv) = some true
    else if xs.length ≠ ys.length then .ok false
    else allEqual xs ys
  | x, y => do
    let xv ← readJson E.ch x
    let yv ← readJson E.ch y
    return (← compareValues E xv .eq yv) = some true

def allEqual : List Json → List Json → Exec Bool
  | x :: xs, y :: ys => do
    if ← itemsEqual x y then allEqual xs ys else return false
  | _, _ => return true

end

/-- Two values are equal. -/
def valuesEqual (a b : Value E.ch) : Exec Bool :=
  match a, b with
  | .json (.array xs), .json (.array ys) => if xs.length ≠ ys.length then .ok false else allEqual E xs ys
  | a, b => do return (← compareValues E a .eq b) = some true

/-! ## Expressions -/

/-- The property of a node, a relationship, a map, a temporal value or a duration. -/
def getProperty (v : Value E.ch) (key : String) : Exec (Value E.ch) :=
  match v with
  | .node _ _ properties | .edge _ _ _ _ properties | .json (.object properties) =>
    match properties.lookup key with
    | some j => readJson E.ch j
    | none => .ok .null
  | .temporal tv => .ok (E.temporalGetProperty tv key)
  | .duration d => .ok (E.durationGetProperty d key)
  | _ => .ok .null

def noProperty (v : Value E.ch) (key : String) : Exec (Value E.ch) :=
  .error (.error ("TypeError: " ++ v.valueTypeName ++ " has no property `" ++ key ++ "`"))

/-- `base.key`. A string that is the text of a temporal value or of a duration has its properties. -/
def evalProperty (base : Value E.ch) (key : String) : Exec (Value E.ch) :=
  match base with
  | .node .. | .edge .. | .null | .temporal _ | .duration _ | .json (.object _) => getProperty E base key
  | .str s => do
    match ← E.tryParseTemporalStr s with
    | some tv => return E.temporalGetProperty tv key
    | none =>
      match (tryParseDurationIso s).run with
      | .ok (some d) => return E.durationGetProperty d key
      | .ok none => noProperty E base key
      | .error p => .error (.panic p)
  | _ => noProperty E base key

/-- `AND`, `OR` and `XOR` on the values of both sides. -/
def evalLogic (op : Option Bool → Option Bool → Option Bool) (l r : Value E.ch) : Exec (Value E.ch) := do
  let lb ← l.requireBool
  let rb ← r.requireBool
  return .ofBool? (op lb rb)

def and3 : Option Bool → Option Bool → Option Bool
  | some false, _ => some false
  | _, some false => some false
  | some true, some true => some true
  | _, _ => none

def or3 : Option Bool → Option Bool → Option Bool
  | some true, _ => some true
  | _, some true => some true
  | some false, some false => some false
  | _, _ => none

def xor3 : Option Bool → Option Bool → Option Bool
  | some a, some b => some (a ^^ b)
  | _, _ => none

/-- `v:Label`. -/
def evalHasLabel (v : Value E.ch) (labels : List String) : Value E.ch :=
  match v with
  | .null => .null
  | .node _ nodeLabels _ => .bool (labels.all fun l => nodeLabels.contains l)
  | .edge _ relType _ _ _ => .bool (labels.all fun l => l = relType)
  | _ => .bool false

/-- The value is among the items of a list. -/
def inItems (val : Value E.ch) : List Json → Bool → Exec (Value E.ch)
  | [], hasNull => .ok (if hasNull then .null else .bool false)
  | item :: items, hasNull => do
    let itemVal ← readJson E.ch item
    match ← compareValues E val .eq itemVal with
    | some true => return .bool true
    | none => inItems val items true
    | some false => inItems val items hasNull

def evalIn (val list : Value E.ch) : Exec (Value E.ch) :=
  match list with
  | .json (.array items) =>
    if val.isNull then .ok (if items.isEmpty then .bool false else .null) else inItems E val items false
  | .null => .ok .null
  | _ => .error (.error
      "SyntaxError: InvalidArgumentType: IN operator requires a list on the right-hand side")

/-- A test of two strings, null on anything else. -/
def evalStrings (test : String → String → Bool) (l r : Value E.ch) : Value E.ch :=
  match l, r with
  | .str s, .str t => .bool (test s t)
  | _, _ => .null

def evalNeg : Value E.ch → Value E.ch
  | .int i => .int (-i)
  | .float f => .float f.neg
  | _ => .null

/-- The answer of a list predicate from how many items it held for, and for how many it was null. -/
def quantify (kind : ListPredicateKind) (total trueCount nullCount : Nat) : Option Bool :=
  let falseCount := total - trueCount - nullCount
  let hasNull := nullCount > 0
  match kind with
  | .any => if trueCount > 0 then some true else if hasNull then none else some false
  | .all => if falseCount > 0 then some false else if hasNull then none else some true
  | .none_ => if trueCount > 0 then some false else if hasNull then none else some true
  | .single =>
    if trueCount > 1 then some false
    else if trueCount = 1 ∧ ¬hasNull then some true
    else if trueCount = 0 ∧ ¬hasNull then some false
    else none

/-- The item of a list at an index, from its end if the index is negative. -/
def itemAt (items : List Json) (i : Int) : Exec (Value E.ch) :=
  let actual := if i < 0 then items.length + i else i
  if actual < 0 then .ok .null
  else
    match items[actual.toNat]? with
    | some item => readJson E.ch item
    | none => .ok .null

def listIndex (items : List Json) : Value E.ch → Exec (Value E.ch)
  | .int i => itemAt E items i.toInt
  | .float f =>
    if f.fract.magnitude ≠ 0 then
      .error (.error "TypeError: InvalidArgumentType: list index must be an integer, not a float")
    else itemAt E items f.toI64.toInt
  | .null => .ok .null
  | _ => .error (.error "TypeError: InvalidArgumentType: list index must be an integer")

/-- `list[index]`. -/
def evalSubscript (list index : Value E.ch) : Exec (Value E.ch) :=
  match list, index with
  | .json (.object _), .null => .ok .null
  | .json (.object _), .str key => getProperty E list key
  | .json (.object _), _ => .error (.error "TypeError: map element access requires a string key")
  | .null, .str _ => .ok .null
  | .node .., .str key => getProperty E list key
  | .edge .., .str key => getProperty E list key
  | .json (.array _), .str _ =>
    .error (.error "TypeError: InvalidArgumentType: list element access requires an integer index")
  | .json (.array items), index => listIndex E items index
  | .null, _ => .ok .null
  | _, .null => .ok .null
  | _, _ => .error (.error "TypeError: InvalidArgumentType: element access requires a list")

/-- A bound of a slice: none where the slice is null. -/
def sliceBound (len : Nat) (other : Nat) : Value E.ch → Option Nat
  | .null => none
  | .int i => some (bound i.toInt)
  | .float f => some (bound f.toI64.toInt)
  | _ => some other
where
  bound (i : Int) : Nat := if i < 0 then (len + i).toNat else min i.toNat len

/-- The list of a list expression, empty for anything else. -/
def itemsOf : Value E.ch → List Json
  | .json (.array items) => items
  | _ => []

mutual

/-- The value of an expression. -/
def evalExpr : Expr → Row E.ch → Params → Exec (Value E.ch)
  | .var name, row, params =>
    match row[name]? with
    | some v => .ok v
    | none =>
      match params[name]? with
      | some pv => readJson E.ch pv
      | none => .error (.error ("unbound variable: " ++ name))
  | .property base key, row, params => do evalProperty E (← evalExpr base row params) key
  | .intLit i, _, _ => .ok (.int i)
  | .floatLit f, _, _ => .ok (.float f)
  | .stringLit s, _, _ => .ok (.str s)
  | .boolLit b, _, _ => .ok (.bool b)
  | .nullLit, _, _ => .ok .null
  | .parameter name, _, params =>
    match params[name]? with
    | some v => readJson E.ch v
    | none => .error (.error ("missing parameter: $" ++ name))
  | .compare left op right, row, params => do
    let l ← evalExpr left row params
    let r ← evalExpr right row params
    return .ofBool? (← compareValues E l op r)
  | .and left right, row, params => do
    let l ← evalExpr left row params
    let r ← evalExpr right row params
    evalLogic E and3 l r
  | .or left right, row, params => do
    let l ← evalExpr left row params
    let r ← evalExpr right row params
    evalLogic E or3 l r
  | .xor left right, row, params => do
    let l ← evalExpr left row params
    let r ← evalExpr right row params
    evalLogic E xor3 l r
  | .not inner, row, params => do
    let v ← evalExpr inner row params
    return .ofBool? ((← v.requireBool).map fun b => !b)
  | .isNull inner, row, params => do return .bool (← evalExpr inner row params).isNull
  | .isNotNull inner, row, params => do return .bool !(← evalExpr inner row params).isNull
  | .hasLabel inner labels, row, params => do return evalHasLabel E (← evalExpr inner row params) labels
  | .arith left op right, row, params => do
    let l ← evalExpr left row params
    let r ← evalExpr right row params
    E.evalArith l op r
  | .neg inner, row, params => do return evalNeg E (← evalExpr inner row params)
  | .functionCall name args, row, params =>
    let results := evalEach args row params
    if name.toLower = "id" then
      match results with
      | [result] => do
        match ← result with
        | .node nodeId .. => return .int nodeId
        | .edge edgeId .. => return .int edgeId
        | _ => return .null
      | _ => .error (.error "id() takes exactly 1 argument")
    else (E.evalFunction name.toLower (args.map fun | .var v => some v | _ => none)).run results
  | .star, row, _ => .ok (.json (.object (Value.jsonMap (row.toList.map fun e => (e.1, e.2.toJson)))))
  | .list items, row, params => do
    let vals ← (evalEach items row params).mapM id
    return .json (.array (vals.map Value.toJson))
  | .inList left list, row, params => do
    let val ← evalExpr left row params
    let items ← evalExpr list row params
    evalIn E val items
  | .startsWith left right, row, params => do
    let l ← evalExpr left row params
    let r ← evalExpr right row params
    return evalStrings E (fun s p => p.toList.isPrefixOf s.toList) l r
  | .endsWith left right, row, params => do
    let l ← evalExpr left row params
    let r ← evalExpr right row params
    return evalStrings E (fun s p => p.toList.isSuffixOf s.toList) l r
  | .contains left right, row, params => do
    let l ← evalExpr left row params
    let r ← evalExpr right row params
    return evalStrings E (fun s p => s.toList.tails.any fun t => p.toList.isPrefixOf t) l r
  | .regex left right, row, params => do
    let l ← evalExpr left row params
    let r ← evalExpr right row params
    return evalStrings E E.regexp l r
  | .caseSearched branches else_, row, params => do
    match ← evalBranches (fun c => return c.truthy3 = some true) branches row params with
    | some v => return v
    | none =>
      match else_ with
      | some e => evalExpr e row params
      | none => return .null
  | .caseSimple test branches else_, row, params => do
    let t ← evalExpr test row params
    match ← evalBranches (fun w => valuesEqual E t w) branches row params with
    | some v => return v
    | none =>
      match else_ with
      | some e => evalExpr e row params
      | none => return .null
  | .listComprehension var listExpr predicate projection, row, params => do
    let items := itemsOf E (← evalExpr listExpr row params)
    let out ← items.filterMapM fun item => do
      let val ← readJson E.ch item
      let innerRow := row.insert var val
      let keep ←
        match predicate with
        | some pred => do pure (decide ((← evalExpr pred innerRow params).truthy3 = some true))
        | none => pure true
      if keep then
        match projection with
        | some proj => do return some (← evalExpr proj innerRow params).toJson
        | none => return some val.toJson
      else return none
    return .json (.array out)
  | .listPredicate kind var listExpr predicate, row, params => do
    match ← evalExpr listExpr row params with
    | .json (.array items) =>
      let answers ← items.mapM fun item => do
        let val ← readJson E.ch item
        return (← evalExpr predicate (row.insert var val) params).truthy3
      return .ofBool? (quantify kind items.length (answers.count (some true)) (answers.count none))
    | .null => return .null
    | _ => return .bool false
  | .subscript list index, row, params => do
    let l ← evalExpr list row params
    let i ← evalExpr index row params
    evalSubscript E l i
  | .listSlice listExpr from_ to_, row, params => do
    match ← evalExpr listExpr row params with
    | .json (.array items) =>
      let start ←
        match from_ with
        | some f => do pure (sliceBound E items.length 0 (← evalExpr f row params))
        | none => pure (some 0)
      match start with
      | none => return .null
      | some start =>
        let stop ←
          match to_ with
          | some t => do pure (sliceBound E items.length items.length (← evalExpr t row params))
          | none => pure (some items.length)
        match stop with
        | none => return .null
        | some stop => return .json (.array ((items.drop start).take (stop - start)))
    | _ => return .json (.array [])
  | .shortestPath all pattern, row, params => E.shortestPath all pattern row params
  | .patternComprehension pathVar pattern predicate projection, row, params =>
    E.patternComprehension pathVar pattern predicate projection row params
  | .exists_ subquery _, row, params => do return .bool (← E.existsRow subquery row params)
  | .mapLiteral entries, row, params => do
    return .json (.object (Value.jsonMap (← evalEntries entries row params)))

/-- The results of expressions, each on its own. -/
def evalEach : List Expr → Row E.ch → Params → List (Exec (Value E.ch))
  | [], _, _ => []
  | e :: es, row, params => evalExpr e row params :: evalEach es row params

/-- The value of the first branch whose head passes a test. -/
def evalBranches (test : Value E.ch → Exec Bool) : List (Expr × Expr) → Row E.ch → Params → Exec (Option (Value E.ch))
  | [], _, _ => .ok none
  | (head, then_) :: rest, row, params => do
    if ← test (← evalExpr head row params) then return some (← evalExpr then_ row params)
    else evalBranches test rest row params

def evalEntries : List (String × Expr) → Row E.ch → Params → Exec (List (String × Json))
  | [], _, _ => .ok []
  | (key, e) :: rest, row, params => do
    let v ← evalExpr e row params
    let entries ← evalEntries rest row params
    return (key, v.toJson) :: entries

end

/-- An engine without functions. -/
def Engine.bare : Engine where
  ch := ⟨Unit, Unit, fun _ => none, fun _ _ _ _ => none⟩
  temporalGetProperty _ _ := .null
  durationGetProperty _ _ := .null
  tryParseTemporalStr _ := .ok none
  compareDeep _ _ _ := .ok none
  evalArith _ _ _ := .ok .null
  regexp _ _ := false
  evalFunction _ _ := .done (.ok .null)
  shortestPath _ _ _ _ := .ok .null
  patternComprehension _ _ _ _ _ _ := .ok .null
  existsRow _ _ _ := .ok false

/-! ### The cases one by one -/

variable (row : Row E.ch) (params : Params)

theorem evalExpr_var (name : String) :
    evalExpr E (.var name) row params =
      (match row[name]? with
        | some v => .ok v
        | none =>
          match params[name]? with
          | some pv => readJson E.ch pv
          | none => .error (.error ("unbound variable: " ++ name))) := rfl

theorem evalExpr_parameter (name : String) :
    evalExpr E (.parameter name) row params =
      (match params[name]? with
        | some v => readJson E.ch v
        | none => .error (.error ("missing parameter: $" ++ name))) := rfl

theorem evalExpr_property (base : Expr) (key : String) :
    evalExpr E (.property base key) row params = (do evalProperty E (← evalExpr E base row params) key) := rfl

theorem evalExpr_compare (left : Expr) (op : CmpOp) (right : Expr) :
    evalExpr E (.compare left op right) row params = (do
      let l ← evalExpr E left row params
      let r ← evalExpr E right row params
      return .ofBool? (← compareValues E l op r)) := rfl

theorem evalExpr_and (left right : Expr) :
    evalExpr E (.and left right) row params = (do
      let l ← evalExpr E left row params
      let r ← evalExpr E right row params
      evalLogic E and3 l r) := rfl

theorem evalExpr_or (left right : Expr) :
    evalExpr E (.or left right) row params = (do
      let l ← evalExpr E left row params
      let r ← evalExpr E right row params
      evalLogic E or3 l r) := rfl

theorem evalExpr_isNull (inner : Expr) :
    evalExpr E (.isNull inner) row params = (do return .bool (← evalExpr E inner row params).isNull) := rfl

theorem evalExpr_hasLabel (inner : Expr) (labels : List String) :
    evalExpr E (.hasLabel inner labels) row params = (do
      return evalHasLabel E (← evalExpr E inner row params) labels) := rfl

theorem evalExpr_id (arg : Expr) :
    evalExpr E (.functionCall "id" [arg]) row params = (do
      match ← evalExpr E arg row params with
      | .node nodeId .. => return .int nodeId
      | .edge edgeId .. => return .int edgeId
      | _ => return .null) := by
  change (if "id".toLower = "id" then _ else _) = _
  rw [if_pos (by decide +kernel)]

theorem evalExpr_listPredicate (kind : ListPredicateKind) (var : String) (listExpr predicate : Expr) :
    evalExpr E (.listPredicate kind var listExpr predicate) row params = (do
      match ← evalExpr E listExpr row params with
      | .json (.array items) =>
        let answers ← items.mapM fun item => do
          let val ← readJson E.ch item
          return (← evalExpr E predicate (row.insert var val) params).truthy3
        return .ofBool? (quantify kind items.length (answers.count (some true)) (answers.count none))
      | .null => return .null
      | _ => return .bool false) := rfl

end PgEddy
