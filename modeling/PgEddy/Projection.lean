import PgEddy.Arithmetic
import PgEddy.Comparison
import PgEddy.Planner
import PgEddy.Lib.FirstSeen
import PgEddy.Lib.StableSort

/-!
# Returning columns

A `RETURN` clause is planned after a check of the names of its columns, and is run by `exec_project`: a row for each input row,
or, with an aggregate among the items, a row for each group of them. The planner and the executor name the items each in its
own way. The sides of a `UNION` are run one after the other.
-/

namespace PgEddy

open Binary64 FirstSeen StableSort

abbrev ReturnItem := ReturnItemOf Expr

abbrev OrderItem := OrderItemOf Expr

/-! ## The names of the executor -/

def cmpOpStr : CmpOp → String
  | .eq => "="
  | .neq => "<>"
  | .lt => "<"
  | .gt => ">"
  | .le => "<="
  | .ge => ">="

def arithOpStr : ArithOp → String
  | .add => "+"
  | .sub => "-"
  | .mul => "*"
  | .div => "/"
  | .mod => "%"
  | .pow => "^"

/-- `strip_suffix`. -/
def stripSuffix (suffix s : String) : Option String :=
  if suffix.toList.isSuffixOf s.toList then some (String.ofList (s.toList.take (s.toList.length - suffix.toList.length))) else none

/-- The name of a column without a name in the query. -/
def colName (idx : Nat) : String := "_col" ++ toString idx

section

variable (floatText : F64 → String)

mutual

/-- The text of an expression, without the parentheses it was written with. -/
def exprDefaultName : Expr → Nat → String
  | .var name, _ => name
  | .property base prop, idx => exprDefaultName base idx ++ "." ++ prop
  | .functionCall name args, _ =>
    match stripSuffix "_distinct" name with
    | some base => base ++ "(DISTINCT " ++ ", ".intercalate (defaultNames args 0) ++ ")"
    | none => name ++ "(" ++ ", ".intercalate (defaultNames args 0) ++ ")"
  | .star, _ => "*"
  | .nullLit, _ => "null"
  | .intLit v, _ => toString v.toInt
  | .floatLit v, _ => floatText v
  | .boolLit b, _ => if b then "true" else "false"
  | .stringLit s, _ => "'" ++ s ++ "'"
  | .parameter name, _ => "$" ++ name
  | .isNull e, idx => exprDefaultName e idx ++ " IS NULL"
  | .isNotNull e, idx => exprDefaultName e idx ++ " IS NOT NULL"
  | .not e, idx => "NOT (" ++ exprDefaultName e idx ++ ")"
  | .neg e, idx => "-(" ++ exprDefaultName e idx ++ ")"
  | .compare l op r, idx => exprDefaultName l idx ++ " " ++ cmpOpStr op ++ " " ++ exprDefaultName r idx
  | .arith l op r, idx => exprDefaultName l idx ++ " " ++ arithOpStr op ++ " " ++ exprDefaultName r idx
  | .and l r, idx => exprDefaultName l idx ++ " AND " ++ exprDefaultName r idx
  | .or l r, idx => exprDefaultName l idx ++ " OR " ++ exprDefaultName r idx
  | .subscript base index, idx => exprDefaultName base idx ++ "[" ++ exprDefaultName index idx ++ "]"
  | .list items, _ => "[" ++ ", ".intercalate (defaultNames items 0) ++ "]"
  | .hasLabel inner labels, idx => exprDefaultName inner idx ++ ":" ++ ":".intercalate labels
  | .mapLiteral pairs, idx => "\x7b" ++ ", ".intercalate (entryNames pairs idx) ++ "\x7d"
  | _, idx => colName idx

/-- The texts of arguments and of items, each with its own place. -/
def defaultNames : List Expr → Nat → List String
  | [], _ => []
  | e :: es, i => exprDefaultName e i :: defaultNames es (i + 1)

def entryNames : List (String × Expr) → Nat → List String
  | [], _ => []
  | (k, v) :: rest, idx => (k ++ ": " ++ exprDefaultName v idx) :: entryNames rest idx

end

/-- The column of an item: its alias, or else its text. -/
def columnKey (item : ReturnItem) (idx : Nat) : String := item.alias_.getD (exprDefaultName floatText item.expr idx)

/-- The columns of a clause. -/
def columnNames (items : List ReturnItem) : List String := items.zipIdx.map fun p => columnKey floatText p.1 p.2

end

/-! ## The check of the planner -/

/-- The name that the check sees. It passes over what it has no name for. -/
def checkedName (item : ReturnItem) (idx : Nat) : Option String :=
  match item.alias_ with
  | some alias_ => some alias_
  | none =>
    match item.expr with
    | .var v => some v
    | .property (.var bv) k => some (bv ++ "." ++ k)
    | .property _ _ => some (colName idx)
    | _ => none

/-- The check for `ColumnNameConflict`. -/
def checkColumns : List (ReturnItem × Nat) → List String → Except PlanError Unit
  | [], _ => .ok ()
  | (item, idx) :: rest, seenCols =>
    match checkedName item idx with
    | none => checkColumns rest seenCols
    | some col =>
      if col ∈ seenCols then
        .error ⟨"SyntaxError: ColumnNameConflict — multiple return columns with name '" ++ col ++ "'"⟩
      else checkColumns rest (col :: seenCols)

/-! ## The names of functions -/

def knownFunctions : List String :=
  ["labels", "type", "properties", "keys", "id", "elementid", "tostring", "tointeger", "tofloat", "toboolean", "size", "length",
    "nodes", "relationships", "rels", "head", "last", "tail", "range", "reverse", "coalesce", "abs", "sign", "ceil", "floor",
    "round", "sqrt", "sin", "cos", "tan", "asin", "acos", "atan", "atan2", "degrees", "radians", "pi", "e", "log", "log10",
    "exp", "rand", "tostring", "replace", "substring", "trim", "ltrim", "rtrim", "toupper", "tolower", "split", "left", "right",
    "starts with", "ends with", "contains", "exists", "collect", "count", "sum", "avg", "min", "max", "stdev", "stdevp",
    "percentilecont", "percentiledisc", "date", "localtime", "time", "localdatetime", "datetime", "duration",
    "duration.between", "duration.inmonths", "duration.indays", "duration.inseconds", "date.truncate", "localtime.truncate",
    "time.truncate", "localdatetime.truncate", "datetime.truncate", "date.realtime", "date.statement", "date.transaction",
    "localtime.realtime", "localtime.statement", "localtime.transaction", "time.realtime", "time.statement",
    "time.transaction", "localdatetime.realtime", "localdatetime.statement", "localdatetime.transaction", "datetime.realtime",
    "datetime.statement", "datetime.transaction", "timestamp", "point", "distance", "tointegerornull", "tofloatornull",
    "tobooleanornull", "tostringornull", "valuetype", "between", "inmonths", "indays", "inseconds", "transaction", "statement",
    "realtime", "truncate", "fromepoch", "fromepochmillis", "count_distinct", "collect_distinct", "sum_distinct",
    "avg_distinct", "startnode", "endnode"]

mutual

/-- The first call of an unknown function is an error. -/
def validateFunctionNames : Expr → Exec Unit
  | .functionCall name args =>
    if name.toLower ∈ knownFunctions then validateEach args
    else .error (.error ("UnknownFunction: " ++ name ++ "()"))
  | .arith l _ r => do validateFunctionNames l; validateFunctionNames r
  | .and l r => do validateFunctionNames l; validateFunctionNames r
  | .or l r => do validateFunctionNames l; validateFunctionNames r
  | .xor l r => do validateFunctionNames l; validateFunctionNames r
  | .compare l _ r => do validateFunctionNames l; validateFunctionNames r
  | .inList l r => do validateFunctionNames l; validateFunctionNames r
  | .startsWith l r => do validateFunctionNames l; validateFunctionNames r
  | .endsWith l r => do validateFunctionNames l; validateFunctionNames r
  | .contains l r => do validateFunctionNames l; validateFunctionNames r
  | .regex l r => do validateFunctionNames l; validateFunctionNames r
  | .not e => validateFunctionNames e
  | .isNull e => validateFunctionNames e
  | .isNotNull e => validateFunctionNames e
  | .neg e => validateFunctionNames e
  | .caseSearched branches else_ => do
    validateBranches branches
    match else_ with
    | some e => validateFunctionNames e
    | none => .ok ()
  | .caseSimple test branches else_ => do
    validateFunctionNames test
    validateBranches branches
    match else_ with
    | some e => validateFunctionNames e
    | none => .ok ()
  | .list items => validateEach items
  | .property e _ => validateFunctionNames e
  | .subscript e i => do validateFunctionNames e; validateFunctionNames i
  | .listSlice listExpr from_ to_ => do
    validateFunctionNames listExpr
    match from_ with
    | some s => validateFunctionNames s
    | none => .ok ()
    match to_ with
    | some e => validateFunctionNames e
    | none => .ok ()
  | _ => .ok ()

def validateEach : List Expr → Exec Unit
  | [] => .ok ()
  | e :: es => do validateFunctionNames e; validateEach es

def validateBranches : List (Expr × Expr) → Exec Unit
  | [] => .ok ()
  | (w, t) :: rest => do validateFunctionNames w; validateFunctionNames t; validateBranches rest

end

/-! ## Aggregates -/

/-- What other libraries do with values: the text of JSON and of floats, the calendar and the lower case of Unicode; and the
aggregates of floats that the model leaves out. -/
structure ProjectionParts (E : Engine) where
  build : Build
  jsonText : Json → String
  floatText : F64 → String
  calendar : Calendar E.ch
  toLowercase : String → String
  stdev : Bool → List Expr → List (Row E.ch) → Params → Exec (Value E.ch)
  percentile : Bool → List Expr → List (Row E.ch) → Params → Exec (Value E.ch)

/-- The text of JSON without floats, arrays, objects and escapes. -/
def scalarText : Json → String
  | .null => "null"
  | .bool b => if b then "true" else "false"
  | .number n => (n.asI64.map fun i => toString i.toInt).getD ""
  | .string s => "\"" ++ s ++ "\""
  | _ => ""

/-- What does not go beyond scalars. -/
def ProjectionParts.bare (build : Build) : ProjectionParts Engine.bare where
  build := build
  jsonText := scalarText
  floatText _ := ""
  calendar := ⟨fun _ => 0, fun _ => 0, fun _ => 0, fun _ => 0, fun _ => 0⟩
  toLowercase := String.toLower
  stdev _ _ _ _ := .ok .null
  percentile _ _ _ _ := .ok .null

/-- `or_else`. -/
def orElse {α : Type} (first second : Exec α) : Exec α :=
  match first with
  | .error (.error _) => second
  | r => r

/-- `ok`. -/
def okOf {α : Type} (r : Exec α) : Exec (Option α) :=
  match r with
  | .ok a => .ok (some a)
  | .error (.error _) => .ok none
  | .error f => .error f

section

variable {E : Engine} (P : ProjectionParts E)

/-- The argument of an aggregate in each row, without nulls. A row in which it fails is left out. -/
def presentValues (arg : Expr) (groupRows : List (Row E.ch)) (params : Params) : Exec (List (Value E.ch)) :=
  groupRows.filterMapM fun row => do return (← okOf (evalExpr E arg row params)).filter fun v => !v.isNull

def valueFingerprint (v : Value E.ch) : String := P.jsonText v.toJson

def countAggregate (distinct : Bool) (args : List Expr) (groupRows : List (Row E.ch)) (params : Params) :
    Exec (Value E.ch) :=
  match args with
  | [] | [.star] => .ok (.int (.ofNat groupRows.length))
  | arg :: _ => do
    let vals ← presentValues arg groupRows params
    let counted := if distinct then retainNew (valueFingerprint P) vals [] else vals
    return .int (.ofNat counted.length)

/-- The sum and the number of the numbers. -/
def addToAvg (acc : F64 × Nat) (v : Value E.ch) : F64 × Nat :=
  match v with
  | .int i => (acc.1.add (.ofInt i.toInt), acc.2 + 1)
  | .float f => (acc.1.add f, acc.2 + 1)
  | _ => acc

def avgAggregate (args : List Expr) (groupRows : List (Row E.ch)) (params : Params) : Exec (Value E.ch) :=
  match args with
  | [] => .error (.error "avg() requires an argument")
  | arg :: _ => do
    let vals ← groupRows.mapM fun row => orNull E (evalExpr E arg row params)
    let acc := vals.foldl addToAvg (.ofNat 0, 0)
    return if acc.2 = 0 then .null else .float (acc.1.div (.ofNat acc.2))

/-- The better of two values: the new one only if the order says so. -/
def better (wanted : Ordering) (result : Option (Value E.ch)) (v : Value E.ch) : Exec (Option (Value E.ch)) :=
  match result with
  | none => .ok (some v)
  | some cur => do return some (if (← Comparison.valueOrdering P.calendar v cur) = wanted then v else cur)

/-- `min` and `max`, with a pass over the rows. -/
def extremumAggregate (name : String) (wanted : Ordering) (args : List Expr) (groupRows : List (Row E.ch)) (params : Params) :
    Exec (Value E.ch) :=
  match args with
  | [] => .error (.error (name ++ "() requires an argument"))
  | arg :: _ => do
    let result ← groupRows.foldlM (fun result row => do
      let v ← orNull E (evalExpr E arg row params)
      if v.isNull then return result else better P wanted result v) none
    return result.getD .null

def collectAggregate (distinct : Bool) (args : List Expr) (groupRows : List (Row E.ch)) (params : Params) :
    Exec (Value E.ch) :=
  match args with
  | [] => .error (.error "collect() requires an argument")
  | arg :: _ => do
    let vals ← groupRows.mapM fun row => orNull E (evalExpr E arg row params)
    let items := (vals.filter fun v => !v.isNull).map Value.toJson
    return .json (.array (if distinct then retainNew P.jsonText items [] else items))

/-- The name of an aggregate in lower case, and whether `_distinct` was taken off it. -/
def aggregateBase (name : String) : String × Bool :=
  match stripSuffix "_distinct" name.toLower with
  | some base => (base, true)
  | none => (name.toLower, false)

/-- An aggregate over the rows of a group. -/
def evalAggregateCall (name : String) (args : List Expr) (groupRows : List (Row E.ch)) (params : Params) :
    Exec (Value E.ch) :=
  if (aggregateBase name).1 = "count" then countAggregate P (aggregateBase name).2 args groupRows params
  else if (aggregateBase name).1 = "sum" then sumAggregate E P.build args groupRows params
  else if (aggregateBase name).1 = "avg" then avgAggregate args groupRows params
  else if (aggregateBase name).1 = "min" then extremumAggregate P "min" .lt args groupRows params
  else if (aggregateBase name).1 = "max" then extremumAggregate P "max" .gt args groupRows params
  else if (aggregateBase name).1 = "collect" then collectAggregate P (aggregateBase name).2 args groupRows params
  else if (aggregateBase name).1 = "stdev" then P.stdev true args groupRows params
  else if (aggregateBase name).1 = "stdevp" then P.stdev false args groupRows params
  else if (aggregateBase name).1 = "percentilecont" then P.percentile true args groupRows params
  else if (aggregateBase name).1 = "percentiledisc" then P.percentile false args groupRows params
  else .error (.error ("unknown aggregate: " ++ name))

end

/-! ## Ordering rows -/

variable {E : Engine} (P : ProjectionParts E)

/-- `ORDER BY` on two rows: the first item that tells them apart decides. -/
def compareRows {α : Type} (orderValue : Expr → α → Exec (Value E.ch)) : List OrderItem → α → α → Exec Ordering
  | [], _, _ => .ok .eq
  | item :: items, a, b => do
    let av ← orderValue item.expr a
    let bv ← orderValue item.expr b
    match ← Comparison.valueOrdering P.calendar av bv with
    | .eq => compareRows orderValue items a b
    | cmp => return if item.ascending then cmp else cmp.swap

/-- An unbound variable in `ORDER BY` is an error already in the first row. -/
def checkOrderBy (params : Params) (first : Row E.ch × Row E.ch) : List OrderItem → Exec Unit
  | [] => .ok ()
  | item :: items =>
    match orElse (evalExpr E item.expr first.1 params) (evalExpr E item.expr first.2 params) with
    | .error (.error message) =>
      if startsWith "unbound variable" message then .error (.error ("SyntaxError: " ++ message))
      else checkOrderBy params first items
    | .error f => .error f
    | .ok _ => checkOrderBy params first items

/-- The rows that were projected, each with the row `ORDER BY` falls back on, in the order of `ORDER BY`. -/
def orderRows (orderValue : Expr → Row E.ch × Row E.ch → Exec (Value E.ch)) (orderBy : List OrderItem) (params : Params)
    (projected : List (Row E.ch × Row E.ch)) : Exec (List (Row E.ch × Row E.ch)) :=
  match orderBy, projected with
  | [], projected => .ok projected
  | _, [] => .ok []
  | orderBy, first :: rest => do
    checkOrderBy params first orderBy
    sortBy (compareRows P orderValue orderBy) (first :: rest)

/-! ## The rows of a clause -/

def rowFingerprint (row : Row E.ch) : String :=
  "|".intercalate ((row.toList.map fun p => p.1 ++ "=" ++ P.jsonText p.2.toJson).insertionSort (· ≤ ·))

def evalConstUsize (e : Expr) (params : Params) : Exec Nat := do
  match ← orNull E (evalExpr E e ∅ params) with
  | .int n =>
    if n < 0 then
      .error (.error "SyntaxError::NegativeIntegerArgument: SKIP/LIMIT must be a non-negative integer")
    else return n.toInt.toNat
  | .float _ => .error (.error "SyntaxError::InvalidArgumentType: SKIP/LIMIT must be an integer, not a float")
  | _ => return 0

/-- `SKIP` and `LIMIT`. -/
def evalBound (E : Engine) (e : Option Expr) (params : Params) : Exec (Option Nat) :=
  match e with
  | some e => do return some (← @evalConstUsize E e params)
  | none => .ok none

/-- What stands behind the items: `ORDER BY`, `DISTINCT`, `SKIP` and `LIMIT`. -/
structure ReturnTail where
  distinct : Bool
  orderBy : List OrderItem
  skip : Option Expr
  limit : Option Expr

/-- The rows behind `ORDER BY`, `DISTINCT`, `SKIP` and `LIMIT`. -/
def finishRows (orderValue : Expr → Row E.ch × Row E.ch → Exec (Value E.ch)) (t : ReturnTail) (params : Params)
    (projected : List (Row E.ch × Row E.ch)) : Exec (List (Row E.ch)) := do
  let ordered ← orderRows P orderValue t.orderBy params projected
  let distinct := if t.distinct then retainNew (fun p => rowFingerprint P p.1) ordered [] else ordered
  let skipped := ((← evalBound E t.skip params).elim distinct fun n => distinct.drop n)
  let limited := ((← evalBound E t.limit params).elim skipped fun n => skipped.take n)
  return limited.map Prod.fst

/-- The values of the items, put under their columns. `*` puts in the variables of the row that are not there yet. -/
def projectItems (row : Row E.ch) (params : Params) : List (ReturnItem × Nat) → Row E.ch → Exec (Row E.ch)
  | [], outRow => .ok outRow
  | (item, idx) :: rest, outRow =>
    match item.expr with
    | .star => projectItems row params rest (row.toList.foldl (fun out p => out.insertIfNew p.1 p.2) outRow)
    | e => do
      let val ← evalExpr E e row params
      projectItems row params rest (outRow.insert (columnKey P.floatText item idx) val)

/-- The value that a row is ordered by: in the projected row, or else in the input row. -/
def orderValue (params : Params) (e : Expr) (p : Row E.ch × Row E.ch) : Exec (Value E.ch) :=
  orNull E (orElse (evalExpr E e p.1 params) (evalExpr E e p.2 params))

/-! ## Groups -/

/-- The rows of one grouping key. -/
structure RowGroup (E : Engine) where
  keyRow : Row E.ch
  rows : List (Row E.ch)
  firstRow : Row E.ch

/-- The items without an aggregate, as expressions and as variables. -/
def keyExprs (items : List ReturnItem) : List Expr :=
  items.flatMap fun item =>
    if exprHasAggregate item.expr then [] else item.expr :: (item.alias_.map Expr.var).toList

def checkAmbiguity (items : List ReturnItem) (orderBy : List OrderItem) : Exec Unit :=
  if !items.all fun item => !exprHasAggregate item.expr || passesAmbiguityCheck P.toLowercase (keyExprs items) item.expr then
    .error (.error ("SyntaxError: AmbiguousAggregationExpression: expression mixes aggregate function calls and " ++
      "non-aggregated variable references"))
  else if !orderBy.all fun o => !exprHasAggregate o.expr || passesAmbiguityCheck P.toLowercase (keyExprs items) o.expr then
    .error (.error ("SyntaxError: AmbiguousAggregationExpression in ORDER BY: expression mixes aggregate and " ++
      "non-aggregated variable references"))
  else .ok ()

/-- The grouping key of a row, and its text. -/
def groupKey (row : Row E.ch) (params : Params) : List (ReturnItem × Nat) → Row E.ch → Exec (Row E.ch × List String)
  | [], keyRow => .ok (keyRow, [])
  | (item, idx) :: rest, keyRow =>
    if exprHasAggregate item.expr then groupKey row params rest keyRow
    else do
      let val ← orNull E (evalExpr E item.expr row params)
      let col := columnKey P.floatText item idx
      let (keyRow, parts) ← groupKey row params rest (keyRow.insert col val)
      return (keyRow, (col ++ "=" ++ P.jsonText val.toJson) :: parts)

/-- The groups by their fingerprints, in the order in which they were first seen. -/
abbrev RowGroups (E : Engine) := List (String × RowGroup E)

def addToGroup (fp : String) (keyRow row : Row E.ch) : RowGroups E → RowGroups E
  | [] => [(fp, ⟨keyRow, [row], row⟩)]
  | (fp', group) :: rest =>
    if fp' = fp then (fp', { group with rows := group.rows ++ [row] }) :: rest
    else (fp', group) :: addToGroup fp keyRow row rest

def groupRows (items : List ReturnItem) (params : Params) : List (Row E.ch) → RowGroups E → Exec (RowGroups E)
  | [], groups => .ok groups
  | row :: rows, groups => do
    let (keyRow, parts) ← groupKey P row params items.zipIdx ∅
    groupRows items params rows (addToGroup ((String.singleton (Char.ofNat 0)).intercalate parts) keyRow row groups)

/-- The values of the items over a group. -/
def projectGroup (group : RowGroup E) (params : Params) : List (ReturnItem × Nat) → Row E.ch → Exec (Row E.ch)
  | [], outRow => .ok outRow
  | (item, idx) :: rest, outRow => do
    let val ← evalWithAgg E (evalAggregateCall P) group.rows group.keyRow params item.expr
    projectGroup group params rest (outRow.insert (columnKey P.floatText item idx) val)

/-- The value that a row of a group is ordered by: in the projected row, its column, or else in the first row. -/
def groupOrderValue (params : Params) (e : Expr) (p : Row E.ch × Row E.ch) : Exec (Value E.ch) :=
  match evalExpr E e p.1 params with
  | .error (.error _) =>
    match p.1[exprDefaultName P.floatText e 0]? with
    | some v => .ok v
    | none => orNull E (evalExpr E e p.2 params)
  | r => r

/-- The groups of a clause. Without a grouping key there is a group even of no rows. -/
def clauseGroups (rows : List (Row E.ch)) (items : List ReturnItem) (params : Params) : Exec (RowGroups E) := do
  let groups ← groupRows P items params rows []
  return if groups.isEmpty && items.all (fun item => exprHasAggregate item.expr) then [("", ⟨∅, [], ∅⟩)] else groups

def execProjectAggregate (rows : List (Row E.ch)) (items : List ReturnItem) (t : ReturnTail) (params : Params) :
    Exec (List (Row E.ch)) := do
  checkAmbiguity P items t.orderBy
  let groups ← clauseGroups P rows items params
  let projected ← groups.mapM fun g => do
    let outRow ← projectGroup P g.2 params items.zipIdx ∅
    return (outRow, g.2.keyRow.toList.foldl (fun inRow p => inRow.insertIfNew p.1 p.2) g.2.firstRow)
  finishRows P (groupOrderValue P params) t params projected

/-- A clause on the rows of its input. -/
def execProject (input : Exec (List (Row E.ch))) (items : List ReturnItem) (t : ReturnTail) (params : Params) :
    Exec (List (Row E.ch)) := do
  items.forM fun item => validateFunctionNames item.expr
  t.orderBy.forM fun o => validateFunctionNames o.expr
  let rows ← input
  if items.any fun item => exprHasAggregate item.expr then execProjectAggregate P rows items t params
  else do
    let projected ← rows.mapM fun row => do return (← projectItems P row params items.zipIdx ∅, row)
    finishRows P (orderValue params) t params projected

end PgEddy
