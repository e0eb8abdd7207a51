import PgEddy.Aggregation
import PgEddy.Lemmas.Syntax

/-!
# Aggregate calls

A traversal that looks for aggregate calls, one expression at a time.
-/

namespace PgEddy

variable {isAggregate : String → Bool} {enters : Expr → Bool}

/-- A call of an aggregate. -/
def isCall (isAggregate : String → Bool) : Expr → Bool
  | .functionCall name _ => isAggregate name
  | _ => false

theorem anyHasCall_eq (es : List Expr) : anyHasCall isAggregate enters es = es.any (hasCall isAggregate enters) := by
  induction es with
  | nil => rfl
  | cons e es ih => rw [anyHasCall, ih, List.any_cons]

theorem branchHasCall_eq (branches : List (Expr × Expr)) :
    branchHasCall isAggregate enters branches =
      (branches.flatMap fun b => [b.1, b.2]).any (hasCall isAggregate enters) := by
  induction branches with
  | nil => rfl
  | cons b rest ih =>
    obtain ⟨head, then_⟩ := b
    rw [branchHasCall, ih]
    rfl

theorem entryHasCall_eq (entries : List (String × Expr)) :
    entryHasCall isAggregate enters entries = (entries.map Prod.snd).any (hasCall isAggregate enters) := by
  induction entries with
  | nil => rfl
  | cons entry rest ih =>
    obtain ⟨key, e⟩ := entry
    rw [entryHasCall, ih]
    rfl

/-- The traversal looks at the expression and, if it enters it, at the expressions directly inside it. -/
theorem hasCall_eq (e : Expr) :
    hasCall isAggregate enters e =
      (isCall isAggregate e || enters e && e.children.any (hasCall isAggregate enters)) := by
  cases e with
  | functionCall name args => rw [hasCall, anyHasCall_eq]; rfl
  | list items => rw [hasCall, anyHasCall_eq]; rfl
  | mapLiteral entries => rw [hasCall, entryHasCall_eq]; rfl
  | caseSearched branches else_ =>
    cases else_ <;> simp [hasCall, branchHasCall_eq, isCall, Expr.children]
  | caseSimple test branches else_ =>
    cases else_ <;> simp [hasCall, branchHasCall_eq, isCall, Expr.children]
  | listComprehension var listExpr predicate projection =>
    cases predicate <;> cases projection <;> simp [hasCall, isCall, Expr.children]
  | listSlice listExpr from_ to_ =>
    cases from_ <;> cases to_ <;> simp [hasCall, isCall, Expr.children]
  | var | intLit | floatLit | stringLit | boolLit | nullLit | parameter | star =>
    simp [hasCall, isCall, Expr.children]
  | shortestPath | patternComprehension | exists_ => simp [hasCall, isCall, Expr.children]
  | _ => simp [hasCall, isCall, Expr.children]

/-- The executor looks into every expression with parts. -/
theorem exprHasAggregate_eq (e : Expr) :
    exprHasAggregate e = (isCall isAggregateName e || e.children.any exprHasAggregate) := by
  refine (hasCall_eq e).trans ?_
  cases e <;> first | rfl | simp [Expr.children]

/-- An expression without aggregates is no call of one, and its parts have none. -/
theorem exprHasAggregate_eq_false {e : Expr} :
    exprHasAggregate e = false ↔ isCall isAggregateName e = false ∧ ∀ c ∈ e.children, exprHasAggregate c = false := by
  rw [exprHasAggregate_eq, Bool.or_eq_false_iff, List.any_eq_false]
  simp

end PgEddy
