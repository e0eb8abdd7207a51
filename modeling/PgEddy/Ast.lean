import PgEddy.Lib.Binary64

/-!
# The syntax of queries

What the parser gives to the planner. Patterns and clauses hold expressions, and an expression holds patterns and queries,
so they are written over the type of the expressions they hold and put together at `Expr`.
-/

namespace PgEddy

open Binary64

/-! ## Patterns -/

/-- The direction of a relationship in a pattern. -/
inductive RelDirection where
  | out
  | in_
  | both
  deriving DecidableEq

/-- The range of `-[*min..max]-`. Without a maximum it is unbounded. -/
structure VarLength where
  min : Nat
  max : Option Nat
  deriving DecidableEq

/-- A node of a pattern: `(var:Label {key: value})`. -/
structure NodePatternOf (ε : Type) where
  var : Option String
  labels : List String
  properties : List (String × ε)
  /-- A map was written, even an empty one. -/
  hasExplicitMap : Bool

/-- A relationship of a pattern: `-[var:TYPE {key: value}]->`. Without a length it is one hop. -/
structure RelPatternOf (ε : Type) where
  var : Option String
  relTypes : List String
  direction : RelDirection
  properties : List (String × ε)
  length : Option VarLength

inductive PatternElementOf (ε : Type) where
  | node (n : NodePatternOf ε)
  | relationship (r : RelPatternOf ε)

/-- A chain of nodes and relationships. `var` names the whole path. -/
structure PatternOf (ε : Type) where
  var : Option String
  elements : List (PatternElementOf ε)

/-! ## Clauses -/

structure OrderItemOf (ε : Type) where
  expr : ε
  ascending : Bool

structure ReturnItemOf (ε : Type) where
  expr : ε
  alias_ : Option String

/-- `n.key = value`, `n = value`, `n += value` and `n:Label`. -/
inductive SetItemOf (ε : Type) where
  | property (target value : ε)
  | var (name : String) (value : ε)
  | mergeMap (name : String) (value : ε)
  | label (name : String) (labels : List String)

inductive RemoveItemOf (ε : Type) where
  | property (target : ε) (key : String)
  | label (name : String) (labels : List String)

mutual

/-- The clauses in order, and the right side of a `UNION`, with whether it keeps duplicates. -/
inductive QueryOf (ε : Type) where
  | mk (clauses : List (QueryClauseOf ε)) (union : Option (Bool × QueryOf ε))

inductive QueryClauseOf (ε : Type) where
  | match_ (optional : Bool) (patterns : List (PatternOf ε)) (whereClause : Option ε)
  | unwind (expr : ε) (alias_ : String)
  | callSubquery (subquery : QueryOf ε)
  | callProcedure (procName : String) (args : List ε) (yieldItems : List (String × Option String)) (implicit : Bool)
  | with_ (distinct : Bool) (items : List (ReturnItemOf ε)) (orderBy : List (OrderItemOf ε))
      (skip limit whereClause : Option ε)
  | return_ (distinct : Bool) (items : List (ReturnItemOf ε)) (orderBy : List (OrderItemOf ε)) (skip limit : Option ε)
  | create (patterns : List (PatternOf ε))
  | merge (pattern : PatternOf ε) (onCreate onMatch : List (SetItemOf ε))
  | set (items : List (SetItemOf ε))
  | remove (items : List (RemoveItemOf ε))
  | delete (exprs : List ε) (detach : Bool)
  | foreach (var : String) (listExpr : ε) (clauses : List (QueryClauseOf ε))
  | createIndex (label prop : String)
  | dropIndex (label prop : String)
  | showIndexes
  | createConstraint (label prop kind : String)
  | dropConstraint (label prop kind : String)
  | showConstraints

end

/-! ## Expressions -/

inductive CmpOp where
  | eq
  | neq
  | lt
  | gt
  | le
  | ge
  deriving DecidableEq

inductive ArithOp where
  | add
  | sub
  | mul
  | div
  | mod
  | pow
  deriving DecidableEq

inductive ListPredicateKind where
  | any
  | all
  | none_
  | single
  deriving DecidableEq

inductive Expr where
  | var (name : String)
  | property (base : Expr) (key : String)
  | intLit (i : Int64)
  | floatLit (f : F64)
  | stringLit (s : String)
  | boolLit (b : Bool)
  | nullLit
  | parameter (name : String)
  | compare (left : Expr) (op : CmpOp) (right : Expr)
  | and (left right : Expr)
  | or (left right : Expr)
  | xor (left right : Expr)
  | not (inner : Expr)
  | isNull (inner : Expr)
  | isNotNull (inner : Expr)
  | arith (left : Expr) (op : ArithOp) (right : Expr)
  | neg (inner : Expr)
  | functionCall (name : String) (args : List Expr)
  | star
  | list (items : List Expr)
  | inList (left list : Expr)
  | startsWith (left right : Expr)
  | endsWith (left right : Expr)
  | contains (left right : Expr)
  | regex (left right : Expr)
  | caseSearched (branches : List (Expr × Expr)) (else_ : Option Expr)
  | caseSimple (test : Expr) (branches : List (Expr × Expr)) (else_ : Option Expr)
  | listComprehension (var : String) (listExpr : Expr) (predicate projection : Option Expr)
  | listPredicate (kind : ListPredicateKind) (var : String) (listExpr predicate : Expr)
  | subscript (list index : Expr)
  | listSlice (listExpr : Expr) (from_ to_ : Option Expr)
  | shortestPath (all : Bool) (pattern : PatternOf Expr)
  | patternComprehension (pathVar : Option String) (pattern : PatternOf Expr) (predicate : Option Expr) (projection : Expr)
  | exists_ (subquery : QueryOf Expr) (implicit : Bool)
  | hasLabel (inner : Expr) (labels : List String)
  | mapLiteral (entries : List (String × Expr))

abbrev NodePattern := NodePatternOf Expr

abbrev RelPattern := RelPatternOf Expr

abbrev PatternElement := PatternElementOf Expr

abbrev Pattern := PatternOf Expr

abbrev SetItem := SetItemOf Expr

abbrev Query := QueryOf Expr

abbrev QueryClause := QueryClauseOf Expr

end PgEddy
