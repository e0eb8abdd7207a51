import PgEddy.Lemmas.AggregateCalls

/-!
# The aggregate detectors

The three traversals that look for aggregates see different calls: one does not know the names of the calls with `DISTINCT`,
and only one looks into slices, list comprehensions and list predicates, or does not look into `CASE`.
-/

namespace PgEddy

/-- An aggregate call that is the expression or stands inside it, below expressions that are entered only. -/
inductive Sees (isAggregate : String → Bool) (enters : Expr → Bool) : Expr → Prop where
  | here {name : String} (args : List Expr) : isAggregate name = true → Sees isAggregate enters (.functionCall name args)
  | inside {e c : Expr} : enters e = true → c ∈ e.children → Sees isAggregate enters c → Sees isAggregate enters e

/-- A slice, a list comprehension or a list predicate. -/
def isListForm : Expr → Bool
  | .listSlice .. | .listComprehension .. | .listPredicate .. => true
  | _ => false

/-- A `CASE` or a match of a regular expression. -/
def isChoiceForm : Expr → Bool
  | .caseSearched .. | .caseSimple .. | .regex .. => true
  | _ => false

variable {isAggregate isAggregate' : String → Bool} {enters enters' : Expr → Bool}

namespace AggregateDetectorsAux

/-- The traversal finds the calls that stand below entered expressions only. -/
theorem hasCall_iff (e : Expr) : hasCall isAggregate enters e = true ↔ Sees isAggregate enters e := by
  induction e using Expr.childInduct with
  | step e ih =>
    rw [hasCall_eq, Bool.or_eq_true, Bool.and_eq_true, List.any_eq_true]
    constructor
    · rintro (hcall | ⟨henter, c, hc, hin⟩)
      · cases e with
        | functionCall name args => exact .here args hcall
        | _ => cases hcall
      · exact .inside henter hc ((ih c hc).mp hin)
    · intro h
      cases h with
      | here args hname => exact .inl hname
      | inside henter hc hin => exact .inr ⟨henter, _, hc, (ih _ hc).mpr hin⟩

theorem Sees.mono (hname : ∀ name, isAggregate name = true → isAggregate' name = true)
    (henter : ∀ e, enters e = true → enters' e = true) {e : Expr} (h : Sees isAggregate enters e) :
    Sees isAggregate' enters' e := by
  induction h with
  | here args h => exact .here args (hname _ h)
  | inside h hc _ ih => exact .inside (henter _ h) hc ih

/-- Whether an expression without parts is entered makes no difference. -/
theorem Sees.congr (henter : ∀ e : Expr, e.children ≠ [] → enters e = enters' e) {e : Expr} :
    Sees isAggregate enters e ↔ Sees isAggregate enters' e := by
  constructor
  · intro h
    induction h with
    | here args h => exact .here args h
    | inside h hc _ ih => exact .inside ((henter _ (List.ne_nil_of_mem hc)).symm.trans h) hc ih
  · intro h
    induction h with
    | here args h => exact .here args h
    | inside h hc _ ih => exact .inside ((henter _ (List.ne_nil_of_mem hc)).trans h) hc ih

theorem exprContainsAggregation_iff (e : Expr) :
    exprContainsAggregation e = true ↔ Sees (fun name => name.toLower ∈ aggregationNames) (fun e => !isListForm e) e := by
  refine (hasCall_iff e).trans (Sees.congr fun e he => ?_)
  cases e <;> first | rfl | exact absurd rfl he

theorem containsAggregation_iff (e : Expr) :
    containsAggregation e = true ↔ Sees isAggregateFn (fun e => !isListForm e && !isChoiceForm e) e := by
  refine (hasCall_iff e).trans (Sees.congr fun e he => ?_)
  cases e <;> first | rfl | exact absurd rfl he

theorem exprHasAggregate_iff (e : Expr) : exprHasAggregate e = true ↔ Sees isAggregateFn (fun _ => true) e := by
  refine (hasCall_iff e).trans (Sees.congr fun e he => ?_)
  cases e <;> first | rfl | exact absurd rfl he

end AggregateDetectorsAux

open AggregateDetectorsAux

/-- The three detectors give the same answer if and only if an expression with an aggregate call has one without `DISTINCT`
that stands in no slice, list comprehension or list predicate, and one that stands in none of these, no `CASE` and no match of
a regular expression. -/
theorem detectors_agree_iff (e : Expr) :
    exprContainsAggregation e = exprHasAggregate e ∧ containsAggregation e = exprHasAggregate e ↔
      (Sees isAggregateFn (fun _ => true) e →
        Sees (fun name => name.toLower ∈ aggregationNames) (fun e => !isListForm e) e ∧
          Sees isAggregateFn (fun e => !isListForm e && !isChoiceForm e) e) := by
  have hplain : ∀ name : String, decide (name.toLower ∈ aggregationNames) = true → isAggregateFn name = true := by
    intro name h
    have hsub : ∀ n ∈ aggregationNames, n ∈ ["count", "count_distinct", "sum", "sum_distinct", "avg", "avg_distinct", "min",
        "max", "collect", "collect_distinct", "stdev", "stdevp", "percentilecont", "percentiledisc"] := by decide
    exact decide_eq_true (hsub _ (of_decide_eq_true h))
  have hfirst : exprContainsAggregation e = true → exprHasAggregate e = true := fun h =>
    (exprHasAggregate_iff e).mpr (Sees.mono hplain (fun _ _ => rfl) ((exprContainsAggregation_iff e).mp h))
  have hsecond : containsAggregation e = true → exprHasAggregate e = true := fun h =>
    (exprHasAggregate_iff e).mpr (Sees.mono (fun _ h => h) (fun _ _ => rfl) ((containsAggregation_iff e).mp h))
  rw [← exprContainsAggregation_iff, ← containsAggregation_iff, ← exprHasAggregate_iff]
  constructor
  · rintro ⟨h, h'⟩ hall
    exact ⟨h.trans hall, h'.trans hall⟩
  · intro h
    exact ⟨Bool.eq_iff_iff.mpr ⟨hfirst, fun hall => (h hall).1⟩, Bool.eq_iff_iff.mpr ⟨hsecond, fun hall => (h hall).2⟩⟩

/-- `count(DISTINCT x)` is an aggregate for the executor, and none for the planner's look at the items of a projection. -/
theorem detectors_differ_distinct :
    ¬(exprContainsAggregation (.functionCall "count_distinct" [.var "x"]) =
        exprHasAggregate (.functionCall "count_distinct" [.var "x"]) ∧
      containsAggregation (.functionCall "count_distinct" [.var "x"]) =
        exprHasAggregate (.functionCall "count_distinct" [.var "x"])) := by
  decide +kernel

end PgEddy
