import PgEddy.Ast

/-!
# The parts of an expression

The expressions directly inside an expression, in the order they are written. What stands in the patterns and the queries of
an expression is not among them.
-/

namespace PgEddy

namespace Expr

/-- The expressions directly inside an expression, outside its patterns and queries. -/
def children : Expr → List Expr
  | .property inner _ | .not inner | .isNull inner | .isNotNull inner | .neg inner | .hasLabel inner _ => [inner]
  | .compare left _ right | .arith left _ right => [left, right]
  | .and left right | .or left right | .xor left right | .inList left right | .startsWith left right
  | .endsWith left right | .contains left right | .regex left right | .subscript left right => [left, right]
  | .functionCall _ args => args
  | .list items => items
  | .mapLiteral entries => entries.map Prod.snd
  | .caseSearched branches else_ => branches.flatMap (fun b => [b.1, b.2]) ++ else_.toList
  | .caseSimple test branches else_ => test :: (branches.flatMap (fun b => [b.1, b.2]) ++ else_.toList)
  | .listComprehension _ listExpr predicate projection => listExpr :: (predicate.toList ++ projection.toList)
  | .listPredicate _ _ listExpr predicate => [listExpr, predicate]
  | .listSlice listExpr from_ to_ => listExpr :: (from_.toList ++ to_.toList)
  | .var _ | .intLit _ | .floatLit _ | .stringLit _ | .boolLit _ | .nullLit | .parameter _ | .star => []
  | .shortestPath .. | .patternComprehension .. | .exists_ .. => []

theorem sizeOf_branch {branches : List (Expr × Expr)} {c : Expr} (h : c ∈ branches.flatMap fun b => [b.1, b.2]) :
    sizeOf c < sizeOf branches := by
  obtain ⟨b, hb, hc⟩ := List.mem_flatMap.mp h
  have hlt := List.sizeOf_lt_of_mem hb
  obtain ⟨c₁, c₂⟩ := b
  rw [Prod.mk.sizeOf_spec] at hlt
  simp only [List.mem_cons, List.not_mem_nil, or_false] at hc
  rcases hc with rfl | rfl <;> omega

theorem sizeOf_option {o : Option Expr} {c : Expr} (h : c ∈ o.toList) : sizeOf c < sizeOf o := by
  cases o with
  | none => cases h
  | some e =>
    rw [List.mem_singleton.mp h, Option.some.sizeOf_spec]
    omega

theorem sizeOf_child {e c : Expr} (h : c ∈ e.children) : sizeOf c < sizeOf e := by
  cases e with
  | functionCall name args =>
    have : sizeOf c < sizeOf args := List.sizeOf_lt_of_mem h
    rw [functionCall.sizeOf_spec]
    omega
  | list items =>
    have : sizeOf c < sizeOf items := List.sizeOf_lt_of_mem h
    rw [list.sizeOf_spec]
    omega
  | mapLiteral entries =>
    obtain ⟨⟨k, v⟩, hmem, rfl⟩ := List.mem_map.mp h
    have hlt := List.sizeOf_lt_of_mem hmem
    rw [Prod.mk.sizeOf_spec] at hlt
    rw [mapLiteral.sizeOf_spec]
    change sizeOf v < _
    omega
  | caseSearched branches else_ =>
    rw [caseSearched.sizeOf_spec]
    rcases List.mem_append.mp h with h | h
    · have := sizeOf_branch h
      omega
    · have := sizeOf_option h
      omega
  | caseSimple test branches else_ =>
    rw [caseSimple.sizeOf_spec]
    rcases List.mem_cons.mp h with rfl | h
    · omega
    · rcases List.mem_append.mp h with h | h
      · have := sizeOf_branch h
        omega
      · have := sizeOf_option h
        omega
  | listComprehension var listExpr predicate projection =>
    rw [listComprehension.sizeOf_spec]
    rcases List.mem_cons.mp h with rfl | h
    · omega
    · rcases List.mem_append.mp h with h | h <;> have := sizeOf_option h <;> omega
  | listSlice listExpr from_ to_ =>
    rw [listSlice.sizeOf_spec]
    rcases List.mem_cons.mp h with rfl | h
    · omega
    · rcases List.mem_append.mp h with h | h <;> have := sizeOf_option h <;> omega
  | var | intLit | floatLit | stringLit | boolLit | nullLit | parameter | star => cases h
  | shortestPath | patternComprehension | exists_ => cases h
  | property | not | isNull | isNotNull | neg | hasLabel =>
    rw [List.mem_singleton.mp h]
    simp +arith
  | _ =>
    simp only [children, List.mem_cons, List.not_mem_nil, or_false] at h
    rcases h with rfl | rfl <;> simp +arith

/-- What holds of an expression when it holds of those directly inside it holds of every expression. -/
theorem childInduct {motive : Expr → Prop} (step : ∀ e : Expr, (∀ c ∈ e.children, motive c) → motive e) (e : Expr) :
    motive e :=
  step e fun c _ => childInduct step c
termination_by sizeOf e
decreasing_by exact sizeOf_child ‹_›

/-! ## Rows of a part -/

/-- The variable that an expression binds in its body. -/
def binder : Expr → Option String
  | .listComprehension x .. => some x
  | .listPredicate _ x .. => some x
  | _ => none

/-- The parts with the variable that the expression binds. -/
def body : Expr → List Expr
  | .listComprehension _ _ predicate projection => predicate.toList ++ projection.toList
  | .listPredicate _ _ _ predicate => [predicate]
  | _ => []

/-- The parts in the row of the expression itself. -/
def outer : Expr → List Expr
  | .listComprehension _ listExpr _ _ => [listExpr]
  | .listPredicate _ _ listExpr _ => [listExpr]
  | e => e.children

/-- What a pattern, a query or `*` reads is not among the parts. -/
def isOpaque : Expr → Bool
  | .star | .shortestPath .. | .patternComprehension .. | .exists_ .. => true
  | _ => false

theorem mem_children {e c : Expr} : c ∈ e.children ↔ c ∈ e.outer ∨ c ∈ e.body := by
  cases e with
  | listComprehension var listExpr predicate projection => simp [children, outer, body]
  | listPredicate kind var listExpr predicate => simp [children, outer, body]
  | _ => simp [outer, body]

/-- An expression with its parts replaced. -/
def mapChildren (f : Expr → Expr) : Expr → Expr
  | .property base key => .property (f base) key
  | .compare left op right => .compare (f left) op (f right)
  | .and left right => .and (f left) (f right)
  | .or left right => .or (f left) (f right)
  | .xor left right => .xor (f left) (f right)
  | .not inner => .not (f inner)
  | .isNull inner => .isNull (f inner)
  | .isNotNull inner => .isNotNull (f inner)
  | .arith left op right => .arith (f left) op (f right)
  | .neg inner => .neg (f inner)
  | .functionCall name args => .functionCall name (args.map f)
  | .list items => .list (items.map f)
  | .inList left right => .inList (f left) (f right)
  | .startsWith left right => .startsWith (f left) (f right)
  | .endsWith left right => .endsWith (f left) (f right)
  | .contains left right => .contains (f left) (f right)
  | .regex left right => .regex (f left) (f right)
  | .caseSearched branches else_ => .caseSearched (branches.map fun b => (f b.1, f b.2)) (else_.map f)
  | .caseSimple test branches else_ => .caseSimple (f test) (branches.map fun b => (f b.1, f b.2)) (else_.map f)
  | .listComprehension x listExpr predicate projection =>
    .listComprehension x (f listExpr) (predicate.map f) (projection.map f)
  | .listPredicate kind x listExpr predicate => .listPredicate kind x (f listExpr) (f predicate)
  | .subscript left right => .subscript (f left) (f right)
  | .listSlice listExpr from_ to_ => .listSlice (f listExpr) (from_.map f) (to_.map f)
  | .hasLabel inner labels => .hasLabel (f inner) labels
  | .mapLiteral entries => .mapLiteral (entries.map fun e => (e.1, f e.2))
  | e => e

theorem map_branches_eq_self {f : Expr → Expr} {branches : List (Expr × Expr)}
    (h : ∀ c ∈ branches.flatMap fun b => [b.1, b.2], f c = c) : (branches.map fun b => (f b.1, f b.2)) = branches := by
  refine (List.map_congr_left fun b hb => ?_).trans (List.map_id branches)
  rw [h b.1 (List.mem_flatMap.mpr ⟨b, hb, by simp⟩), h b.2 (List.mem_flatMap.mpr ⟨b, hb, by simp⟩)]
  rfl

theorem map_option_eq_self {f : Expr → Expr} {o : Option Expr} (h : ∀ c ∈ o.toList, f c = c) : o.map f = o := by
  cases o with
  | none => rfl
  | some c => exact congrArg some (h c (by simp))

/-- An expression whose parts stay as they are stays as it is. -/
theorem mapChildren_eq_self {f : Expr → Expr} {e : Expr} (h : ∀ c ∈ e.children, f c = c) : e.mapChildren f = e := by
  cases e with
  | functionCall name args => exact congrArg (functionCall name) ((List.map_congr_left h).trans (List.map_id args))
  | list items => exact congrArg list ((List.map_congr_left h).trans (List.map_id items))
  | mapLiteral entries =>
    refine congrArg mapLiteral ((List.map_congr_left fun entry hentry => ?_).trans (List.map_id entries))
    rw [h entry.2 (List.mem_map_of_mem hentry)]
    rfl
  | caseSearched branches else_ =>
    rw [mapChildren, map_branches_eq_self fun c hc => h c (List.mem_append_left _ hc),
      map_option_eq_self fun c hc => h c (List.mem_append_right _ hc)]
  | caseSimple test branches else_ =>
    rw [mapChildren, h test List.mem_cons_self,
      map_branches_eq_self fun c hc => h c (List.mem_cons_of_mem _ (List.mem_append_left _ hc)),
      map_option_eq_self fun c hc => h c (List.mem_cons_of_mem _ (List.mem_append_right _ hc))]
  | listComprehension x listExpr predicate projection =>
    rw [mapChildren, h listExpr List.mem_cons_self,
      map_option_eq_self fun c hc => h c (List.mem_cons_of_mem _ (List.mem_append_left _ hc)),
      map_option_eq_self fun c hc => h c (List.mem_cons_of_mem _ (List.mem_append_right _ hc))]
  | listSlice listExpr from_ to_ =>
    rw [mapChildren, h listExpr List.mem_cons_self,
      map_option_eq_self fun c hc => h c (List.mem_cons_of_mem _ (List.mem_append_left _ hc)),
      map_option_eq_self fun c hc => h c (List.mem_cons_of_mem _ (List.mem_append_right _ hc))]
  | property | not | isNull | isNotNull | neg | hasLabel => rw [mapChildren, h _ (List.mem_singleton.mpr rfl)]
  | var | intLit | floatLit | stringLit | boolLit | nullLit | parameter | star => rfl
  | shortestPath | patternComprehension | exists_ => rfl
  | _ => rw [mapChildren, h _ List.mem_cons_self, h _ (List.mem_cons_of_mem _ List.mem_cons_self)]

/-! ## Rewriting -/

section

variable (replace : Expr → Option Expr)

mutual

/-- The expression with its outermost parts that are replaced in their places. -/
def rewrite (e : Expr) : Expr :=
  match replace e with
  | some r => r
  | none =>
    match e with
    | .property base key => .property (rewrite base) key
    | .compare left op right => .compare (rewrite left) op (rewrite right)
    | .and left right => .and (rewrite left) (rewrite right)
    | .or left right => .or (rewrite left) (rewrite right)
    | .xor left right => .xor (rewrite left) (rewrite right)
    | .not inner => .not (rewrite inner)
    | .isNull inner => .isNull (rewrite inner)
    | .isNotNull inner => .isNotNull (rewrite inner)
    | .arith left op right => .arith (rewrite left) op (rewrite right)
    | .neg inner => .neg (rewrite inner)
    | .functionCall name args => .functionCall name (rewriteEach args)
    | .list items => .list (rewriteEach items)
    | .inList left right => .inList (rewrite left) (rewrite right)
    | .startsWith left right => .startsWith (rewrite left) (rewrite right)
    | .endsWith left right => .endsWith (rewrite left) (rewrite right)
    | .contains left right => .contains (rewrite left) (rewrite right)
    | .regex left right => .regex (rewrite left) (rewrite right)
    | .caseSearched branches else_ =>
      .caseSearched (rewriteBranches branches)
        (match else_ with
          | some e => some (rewrite e)
          | none => none)
    | .caseSimple test branches else_ =>
      .caseSimple (rewrite test) (rewriteBranches branches)
        (match else_ with
          | some e => some (rewrite e)
          | none => none)
    | .listComprehension x listExpr predicate projection =>
      .listComprehension x (rewrite listExpr)
        (match predicate with
          | some e => some (rewrite e)
          | none => none)
        (match projection with
          | some e => some (rewrite e)
          | none => none)
    | .listPredicate kind x listExpr predicate => .listPredicate kind x (rewrite listExpr) (rewrite predicate)
    | .subscript left right => .subscript (rewrite left) (rewrite right)
    | .listSlice listExpr from_ to_ =>
      .listSlice (rewrite listExpr)
        (match from_ with
          | some e => some (rewrite e)
          | none => none)
        (match to_ with
          | some e => some (rewrite e)
          | none => none)
    | .hasLabel inner labels => .hasLabel (rewrite inner) labels
    | .mapLiteral entries => .mapLiteral (rewriteEntries entries)
    | e => e

def rewriteEach : List Expr → List Expr
  | [] => []
  | e :: es => rewrite e :: rewriteEach es

def rewriteBranches : List (Expr × Expr) → List (Expr × Expr)
  | [] => []
  | (head, then_) :: rest => (rewrite head, rewrite then_) :: rewriteBranches rest

def rewriteEntries : List (String × Expr) → List (String × Expr)
  | [] => []
  | (key, e) :: rest => (key, rewrite e) :: rewriteEntries rest

end

variable {replace}

theorem rewriteEach_eq_map (es : List Expr) : rewriteEach replace es = es.map (rewrite replace) := by
  induction es with
  | nil => rfl
  | cons e es ih => rw [rewriteEach, ih, List.map_cons]

theorem rewriteBranches_eq_map (branches : List (Expr × Expr)) :
    rewriteBranches replace branches = branches.map fun b => (rewrite replace b.1, rewrite replace b.2) := by
  induction branches with
  | nil => rfl
  | cons b branches ih => rw [rewriteBranches, ih, List.map_cons]

theorem rewriteEntries_eq_map (entries : List (String × Expr)) :
    rewriteEntries replace entries = entries.map fun entry => (entry.1, rewrite replace entry.2) := by
  induction entries with
  | nil => rfl
  | cons entry entries ih => rw [rewriteEntries, ih, List.map_cons]

theorem rewrite_of_some {e r : Expr} (h : replace e = some r) : rewrite replace e = r := by
  rw [rewrite.eq_def, h]

/-- What is not replaced is rewritten in its parts. -/
theorem rewrite_of_none {e : Expr} (h : replace e = none) : rewrite replace e = e.mapChildren (rewrite replace) := by
  rw [rewrite.eq_def, h]
  cases e with
  | functionCall name args => exact congrArg (functionCall name) (rewriteEach_eq_map args)
  | list items => exact congrArg list (rewriteEach_eq_map items)
  | mapLiteral entries => exact congrArg mapLiteral (rewriteEntries_eq_map entries)
  | caseSearched branches else_ =>
    rw [mapChildren, ← rewriteBranches_eq_map]
    cases else_ <;> rfl
  | caseSimple test branches else_ =>
    rw [mapChildren, ← rewriteBranches_eq_map]
    cases else_ <;> rfl
  | listComprehension x listExpr predicate projection => cases predicate <;> cases projection <;> rfl
  | listSlice listExpr from_ to_ => cases from_ <;> cases to_ <;> rfl
  | _ => rfl

/-- An expression where nothing is replaced stays as it is. -/
theorem rewrite_eq_self {e : Expr} (h : replace e = none) (hparts : ∀ c ∈ e.children, rewrite replace c = c) :
    rewrite replace e = e := by
  rw [rewrite_of_none h, mapChildren_eq_self hparts]

end

end Expr

end PgEddy
