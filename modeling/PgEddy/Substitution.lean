import PgEddy.Eval

/-!
# Rewriting the condition of a `WITH`

The planner moves the condition of a `WITH` without aggregates below its projection. The aliases that the projection makes are
not bound there, so the planner puts the items' expressions in their places.
-/

namespace PgEddy

/-! ## The rewriting -/

def addAlias (aliases : Std.ExtTreeMap String Expr) (item : ReturnItemOf Expr) : Std.ExtTreeMap String Expr :=
  match item.alias_ with
  | some a => aliases.insert a item.expr
  | none => aliases

/-- The expressions of the items with an alias, by alias. -/
def aliasMap (items : List (ReturnItemOf Expr)) : Std.ExtTreeMap String Expr := items.foldl addAlias ∅

section

variable (aliases : Std.ExtTreeMap String Expr)

mutual

/-- The expression with those of the aliases in their places. -/
def substituteAliasesInExpr : Expr → Expr
  | .var v =>
    match aliases[v]? with
    | some replacement => replacement
    | none => .var v
  | .property base key => .property (substituteAliasesInExpr base) key
  | .compare left op right => .compare (substituteAliasesInExpr left) op (substituteAliasesInExpr right)
  | .and left right => .and (substituteAliasesInExpr left) (substituteAliasesInExpr right)
  | .or left right => .or (substituteAliasesInExpr left) (substituteAliasesInExpr right)
  | .xor left right => .xor (substituteAliasesInExpr left) (substituteAliasesInExpr right)
  | .not e => .not (substituteAliasesInExpr e)
  | .isNull e => .isNull (substituteAliasesInExpr e)
  | .isNotNull e => .isNotNull (substituteAliasesInExpr e)
  | .arith left op right => .arith (substituteAliasesInExpr left) op (substituteAliasesInExpr right)
  | .neg e => .neg (substituteAliasesInExpr e)
  | .functionCall name args => .functionCall name (substituteEach args)
  | .inList left right => .inList (substituteAliasesInExpr left) (substituteAliasesInExpr right)
  | .startsWith left right => .startsWith (substituteAliasesInExpr left) (substituteAliasesInExpr right)
  | .endsWith left right => .endsWith (substituteAliasesInExpr left) (substituteAliasesInExpr right)
  | .contains left right => .contains (substituteAliasesInExpr left) (substituteAliasesInExpr right)
  | .regex left right => .regex (substituteAliasesInExpr left) (substituteAliasesInExpr right)
  | .subscript left right => .subscript (substituteAliasesInExpr left) (substituteAliasesInExpr right)
  | .hasLabel e labels => .hasLabel (substituteAliasesInExpr e) labels
  | .list items => .list (substituteEach items)
  | .mapLiteral pairs => .mapLiteral (substitutePairs pairs)
  | .listSlice listExpr from_ to_ =>
    .listSlice (substituteAliasesInExpr listExpr)
      (match from_ with
        | some e => some (substituteAliasesInExpr e)
        | none => none)
      (match to_ with
        | some e => some (substituteAliasesInExpr e)
        | none => none)
  | .caseSearched branches else_ =>
    .caseSearched (substituteBranches branches)
      (match else_ with
        | some e => some (substituteAliasesInExpr e)
        | none => none)
  | .caseSimple test branches else_ =>
    .caseSimple (substituteAliasesInExpr test) (substituteBranches branches)
      (match else_ with
        | some e => some (substituteAliasesInExpr e)
        | none => none)
  -- The variable of a comprehension or of a list predicate does not hide an alias of its name.
  | .listComprehension x listExpr predicate projection =>
    .listComprehension x (substituteAliasesInExpr listExpr)
      (match predicate with
        | some e => some (substituteAliasesInExpr e)
        | none => none)
      (match projection with
        | some e => some (substituteAliasesInExpr e)
        | none => none)
  | .listPredicate kind x listExpr predicate =>
    .listPredicate kind x (substituteAliasesInExpr listExpr) (substituteAliasesInExpr predicate)
  | .intLit i => .intLit i
  | .floatLit f => .floatLit f
  | .stringLit s => .stringLit s
  | .boolLit b => .boolLit b
  | .nullLit => .nullLit
  | .star => .star
  | .parameter name => .parameter name
  -- Patterns and queries are left as they are.
  | .shortestPath all pattern => .shortestPath all pattern
  | .patternComprehension pathVar pattern predicate projection => .patternComprehension pathVar pattern predicate projection
  | .exists_ subquery implicit => .exists_ subquery implicit

def substituteEach : List Expr → List Expr
  | [] => []
  | e :: es => substituteAliasesInExpr e :: substituteEach es

def substitutePairs : List (String × Expr) → List (String × Expr)
  | [] => []
  | (key, e) :: rest => (key, substituteAliasesInExpr e) :: substitutePairs rest

def substituteBranches : List (Expr × Expr) → List (Expr × Expr)
  | [] => []
  | (head, then_) :: rest => (substituteAliasesInExpr head, substituteAliasesInExpr then_) :: substituteBranches rest

end

end

/-! ## What it stands for -/

section

variable (E : Engine) (row : Row E.ch) (params : Params)

/-- The row with the item's alias bound to the value of the item in the row of the clause. -/
def bindAlias (row' : Row E.ch) (item : ReturnItemOf Expr) : Exec (Row E.ch) :=
  match item.alias_ with
  | some a => do return row'.insert a (← evalExpr E item.expr row params)
  | none => .ok row'

/-- The row with each alias bound to its item's value in the row. -/
def bindAliases (items : List (ReturnItemOf Expr)) : Exec (Row E.ch) := items.foldlM (bindAlias E row params) row

end

/-! ## One step of the rewriting -/

variable {aliases : Std.ExtTreeMap String Expr}

theorem substituteEach_eq_map (es : List Expr) : substituteEach aliases es = es.map (substituteAliasesInExpr aliases) := by
  induction es with
  | nil => rfl
  | cons e es ih => rw [substituteEach, ih, List.map_cons]

theorem substitutePairs_eq_map (pairs : List (String × Expr)) :
    substitutePairs aliases pairs = pairs.map fun p => (p.1, substituteAliasesInExpr aliases p.2) := by
  induction pairs with
  | nil => rfl
  | cons p pairs ih => rw [substitutePairs, ih, List.map_cons]

theorem substituteBranches_eq_map (branches : List (Expr × Expr)) :
    substituteBranches aliases branches =
      branches.map fun b => (substituteAliasesInExpr aliases b.1, substituteAliasesInExpr aliases b.2) := by
  induction branches with
  | nil => rfl
  | cons b branches ih => rw [substituteBranches, ih, List.map_cons]

end PgEddy
