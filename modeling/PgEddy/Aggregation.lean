import PgEddy.Ast

/-!
# Finding aggregates

The planner and the executor each look for aggregate calls in an expression, with their own lists of names and their own lists
of the constructors they look into.
-/

namespace PgEddy

/-! ## Names

No character but an ASCII one has one of the letters of these names for its lower case, so both ways of the program to
lower a name are one here. -/

/-- The names that `expr_contains_aggregation` knows. -/
def aggregationNames : List String :=
  ["count", "sum", "avg", "min", "max", "collect", "stdev", "stdevp", "percentilecont", "percentiledisc"]

/-- The planner's names of the aggregates, those with `DISTINCT` among them. -/
def isAggregateFn (name : String) : Bool :=
  name.toLower ∈ ["count", "count_distinct", "sum", "sum_distinct", "avg", "avg_distinct", "min", "max", "collect",
    "collect_distinct", "stdev", "stdevp", "percentilecont", "percentiledisc"]

/-- The executor's names of the aggregates. -/
def isAggregateName (name : String) : Bool :=
  name.toLower ∈ ["count", "count_distinct", "sum", "sum_distinct", "avg", "avg_distinct", "min", "max", "collect",
    "collect_distinct", "stdev", "stdevp", "percentilecont", "percentiledisc"]

/-! ## Looking into expressions -/

section

variable (isAggregate : String → Bool) (enters : Expr → Bool)

mutual

/-- The expression is a call of an aggregate, or has one inside it where the traversal looks into it. -/
def hasCall : Expr → Bool
  | .functionCall name args => isAggregate name || enters (.functionCall name args) && anyHasCall args
  | .property inner key => enters (.property inner key) && hasCall inner
  | .not inner => enters (.not inner) && hasCall inner
  | .isNull inner => enters (.isNull inner) && hasCall inner
  | .isNotNull inner => enters (.isNotNull inner) && hasCall inner
  | .neg inner => enters (.neg inner) && hasCall inner
  | .hasLabel inner labels => enters (.hasLabel inner labels) && hasCall inner
  | .compare left op right => enters (.compare left op right) && (hasCall left || hasCall right)
  | .arith left op right => enters (.arith left op right) && (hasCall left || hasCall right)
  | .and left right => enters (.and left right) && (hasCall left || hasCall right)
  | .or left right => enters (.or left right) && (hasCall left || hasCall right)
  | .xor left right => enters (.xor left right) && (hasCall left || hasCall right)
  | .inList left right => enters (.inList left right) && (hasCall left || hasCall right)
  | .startsWith left right => enters (.startsWith left right) && (hasCall left || hasCall right)
  | .endsWith left right => enters (.endsWith left right) && (hasCall left || hasCall right)
  | .contains left right => enters (.contains left right) && (hasCall left || hasCall right)
  | .regex left right => enters (.regex left right) && (hasCall left || hasCall right)
  | .subscript left right => enters (.subscript left right) && (hasCall left || hasCall right)
  | .list items => enters (.list items) && anyHasCall items
  | .mapLiteral entries => enters (.mapLiteral entries) && entryHasCall entries
  | .caseSearched branches else_ =>
    enters (.caseSearched branches else_) && (branchHasCall branches ||
      match else_ with
      | some e => hasCall e
      | none => false)
  | .caseSimple test branches else_ =>
    enters (.caseSimple test branches else_) && (hasCall test || (branchHasCall branches ||
      match else_ with
      | some e => hasCall e
      | none => false))
  | .listComprehension var listExpr predicate projection =>
    enters (.listComprehension var listExpr predicate projection) && (hasCall listExpr ||
      ((match predicate with
        | some e => hasCall e
        | none => false) ||
      match projection with
        | some e => hasCall e
        | none => false))
  | .listPredicate kind var listExpr predicate =>
    enters (.listPredicate kind var listExpr predicate) && (hasCall listExpr || hasCall predicate)
  | .listSlice listExpr from_ to_ =>
    enters (.listSlice listExpr from_ to_) && (hasCall listExpr ||
      ((match from_ with
        | some e => hasCall e
        | none => false) ||
      match to_ with
        | some e => hasCall e
        | none => false))
  | _ => false

def anyHasCall : List Expr → Bool
  | [] => false
  | e :: es => hasCall e || anyHasCall es

def branchHasCall : List (Expr × Expr) → Bool
  | [] => false
  | (head, then_) :: rest => hasCall head || (hasCall then_ || branchHasCall rest)

def entryHasCall : List (String × Expr) → Bool
  | [] => false
  | (_, e) :: rest => hasCall e || entryHasCall rest

end

end

/-! ## The three detectors -/

/-- The planner, of the items of a projection. -/
def exprContainsAggregation : Expr → Bool :=
  hasCall (fun name => name.toLower ∈ aggregationNames) fun
    | .functionCall .. | .property .. | .isNull _ | .isNotNull _ | .not _ | .neg _ | .hasLabel .. => true
    | .and .. | .or .. | .xor .. | .arith .. | .compare .. | .inList .. | .subscript .. => true
    | .startsWith .. | .endsWith .. | .contains .. | .regex .. => true
    | .list _ | .mapLiteral _ | .caseSearched .. | .caseSimple .. => true
    | _ => false

/-- The planner, of the `WHERE` of a `MATCH`, which may have no aggregate. -/
def containsAggregation : Expr → Bool :=
  hasCall isAggregateFn fun
    | .functionCall .. => true
    | .arith .. | .compare .. | .and .. | .or .. | .xor .. | .startsWith .. | .endsWith .. | .contains .. | .inList .. => true
    | .not _ | .neg _ | .isNull _ | .isNotNull _ | .hasLabel .. | .property .. => true
    | .list _ | .mapLiteral _ | .subscript .. => true
    | _ => false

/-- The executor: an expression that it evaluates over a group of rows. -/
def exprHasAggregate : Expr → Bool :=
  hasCall isAggregateName fun
    | .functionCall .. => true
    | .arith .. | .compare .. | .and .. | .or .. | .xor .. => true
    | .startsWith .. | .endsWith .. | .contains .. | .regex .. | .inList .. => true
    | .not _ | .neg _ | .isNull _ | .isNotNull _ | .property .. | .hasLabel .. => true
    | .subscript .. | .listSlice .. | .list _ | .mapLiteral _ | .caseSearched .. | .caseSimple .. => true
    | .listComprehension .. | .listPredicate .. => true
    | _ => false

end PgEddy
