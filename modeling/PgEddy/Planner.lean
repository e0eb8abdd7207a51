import PgEddy.Eval

/-!
# Planning patterns

A `MATCH` clause becomes a tree of operators. The elements of a pattern without a variable get internal names, under which
they stand in the rows. The plans of the other clauses are taken as what executing them gives (`LogicalPlan.rows`).
-/

namespace PgEddy

/-! ## Plans -/

/-- What a bound variable stands for. -/
inductive VarKind where
  | node
  | rel
  | path
  | scalar
  | notNode
  deriving DecidableEq

abbrev VarKinds := Std.ExtTreeMap String VarKind

structure PlanError where
  message : String
  deriving DecidableEq

/-- Scan all nodes, or those with a label. With `neededProps`, only these properties are read. -/
structure LabelScan where
  var : String
  label : Option String
  inlineProps : List (String × Expr)
  optional : Bool
  neededProps : Option (List String)

/-- Look nodes up by the value of an indexed property. -/
structure PropertyIndexScan where
  var : String
  label : String
  prop : String
  valueExpr : Expr
  remainingFilters : List (String × Expr)
  optional : Bool

/-- One hop from a bound node. With `neededDstProps`, only these properties of the other node are read. -/
structure Expand where
  srcVar : String
  relVar : Option String
  dstVar : String
  relTypes : List String
  direction : RelDirection
  relProps : List (String × Expr)
  dstLabels : List String
  dstProps : List (String × Expr)
  optional : Bool
  neededDstProps : Option (List String)

/-- Between `minHops` and `maxHops` hops from a bound node. -/
structure VarLengthExpand where
  srcVar : String
  relVar : Option String
  dstVar : String
  relTypes : List String
  direction : RelDirection
  minHops : Nat
  maxHops : Option Nat
  optional : Bool
  /-- The walk itself is stored under this variable. -/
  pathCarryVar : Option String
  /-- The relationships of these variables are not walked. -/
  excludedRelVars : List String

/-- Walk a list of relationships that is bound already. -/
structure BoundRelListExpand where
  srcVar : String
  listVar : String
  dstVar : String
  direction : RelDirection

inductive LogicalPlan (ch : Chrono) where
  | singleRow
  | labelScan (scan : LabelScan)
  | propertyIndexScan (scan : PropertyIndexScan)
  | expand (input : LogicalPlan ch) (op : Expand)
  | varLengthExpand (input : LogicalPlan ch) (op : VarLengthExpand)
  | boundRelListExpand (input : LogicalPlan ch) (op : BoundRelListExpand)
  | namedPath (input : LogicalPlan ch) (pathVar : String) (elementVars : List String)
  | crossProduct (left right : LogicalPlan ch)
  | filter (input : LogicalPlan ch) (predicate : Expr)
  | leftJoin (outer inner : LogicalPlan ch) (nullVars : List String)
  /-- The plan of any other clause. -/
  | rows (run : Params → Exec (List (Row ch)))

/-- What the planner asks the catalog, and its checks of a `WHERE`, which only refuse a clause. -/
structure Catalog where
  hasPropertyIndex : String → String → Bool
  checkWhere : Expr → List String → VarKinds → Except PlanError Unit

variable {ch : Chrono} (C : Catalog)

/-! ## Patterns -/

/-- `s.starts_with(p)`. -/
def startsWith (p s : String) : Bool := p.toList.isPrefixOf s.toList

namespace PatternElementOf

def rel? {ε : Type} : PatternElementOf ε → Option (RelPatternOf ε)
  | .relationship r => some r
  | .node _ => none

end PatternElementOf

/-- The relationships of a pattern. -/
def relationships (pattern : Pattern) : List RelPattern := pattern.elements.filterMap PatternElementOf.rel?

def fixedHopCount (pattern : Pattern) : Nat := ((relationships pattern).filter fun r => r.length.isNone).length

def hasVarlen (pattern : Pattern) : Bool := (relationships pattern).any fun r => r.length.isSome

/-- The name with as many underscores after it as it takes to be none of the taken ones. -/
def freshName : Nat → List String → String → String
  | 0, _, name => name
  | fuel + 1, taken, name => if name ∈ taken then freshName fuel taken (name ++ "_") else name

/-- The variable of a node of a pattern: its own, or an internal one. -/
def nodeVar (n : NodePattern) (internal : String) (taken : List String) : String :=
  n.var.getD (freshName taken.length taken internal)

def nodeConflict (var : String) : PlanError :=
  ⟨"SyntaxError: VariableTypeConflict — '" ++ var ++ "' is already bound as a non-node but used as a node"⟩

/-- A variable of a node that is known as something else is refused. -/
def checkNodeKind (n : NodePattern) (var : String) (kinds : VarKinds) : Except PlanError Unit :=
  if n.var.isSome ∧ (kinds[var]? = some .rel ∨ kinds[var]? = some .path ∨ kinds[var]? = some .notNode) then
    .error (nodeConflict var)
  else .ok ()

def propEq (var key : String) (value : Expr) : Expr := .compare (.property (.var var) key) .eq value

/-- A plan under filters, the first of them innermost. -/
def withFilters (plan : LogicalPlan ch) (filters : List Expr) : LogicalPlan ch :=
  filters.foldl LogicalPlan.filter plan

/-- The index scan for the first inline property that has an index. -/
def tryPropertyIndexScan (var label : String) (inlineProps : List (String × Expr)) (optional : Bool) :
    Option PropertyIndexScan :=
  match inlineProps.findIdx? fun p => C.hasPropertyIndex label p.1 with
  | none => none
  | some idx =>
    (inlineProps[idx]?).map fun p => ⟨var, label, p.1, p.2, inlineProps.eraseIdx idx, optional⟩

def scanNode (var : String) (n : NodePattern) (optional : Bool) : LogicalPlan ch :=
  match n.labels.head?.bind fun l => tryPropertyIndexScan C var l n.properties optional with
  | some scan => .propertyIndexScan scan
  | none => .labelScan ⟨var, n.labels.head?, n.properties, optional, none⟩

/-- The plan of the first node: filters on a bound variable, else a scan. -/
def planFirstNode (current : LogicalPlan ch) (n : NodePattern) (var : String) (isBound optional : Bool) : LogicalPlan ch :=
  if isBound then
    withFilters current ((if n.labels = [] then [] else [Expr.hasLabel (.var var) n.labels]) ++
      n.properties.map fun p => propEq var p.1 p.2)
  else
    let scan := scanNode C var n optional
    let plan :=
      match current with
      | .singleRow => scan
      | other => .crossProduct other scan
    withFilters plan ((n.labels.drop 1).map fun l => Expr.hasLabel (.var var) [l])

/-- The variables of the loop over the relationships of a pattern. -/
structure PatternPlan (ch : Chrono) where
  plan : LogicalPlan ch
  newNodeVars : List String
  newRelVars : List String
  kinds : VarKinds
  elementVars : List String
  anonRelCounter : Nat
  lastNodeVar : String

/-- What the loop reads and does not change. -/
structure PatternScope where
  isNamed : Bool
  /-- Anonymous relationships of one hop get a name. -/
  tracksAnonymous : Bool
  bound : List String
  optional : Bool
  allFixedRelVars : List String

/-- The name of an anonymous relationship of one hop that is tracked. -/
def anonRel (n : Nat) : String := "_anon_rel_" ++ toString n

/-- The name of an anonymous relationship of a named path. -/
def pathRel (n : Nat) : String := "_pr_" ++ toString n

/-- The variable of a relationship of one hop as the loop will name it, and the counter after it. -/
def fixedRelVar (isNamed tracksAnonymous : Bool) (ac : Nat) (r : RelPattern) : Option String × Nat :=
  if r.length.isSome then (none, ac)
  else
    match r.var with
    | some rv => (some rv, ac)
    | none => if isNamed || !tracksAnonymous then (none, ac) else (some (anonRel ac), ac + 1)

/-- The variables of the relationships of one hop in a pattern. -/
def fixedRelVars (isNamed tracksAnonymous : Bool) : Nat → List PatternElement → List String
  | ac, .relationship r :: _ :: rest =>
    let (var, ac') := fixedRelVar isNamed tracksAnonymous ac r
    var.toList ++ fixedRelVars isNamed tracksAnonymous ac' rest
  | ac, [.relationship r] => (fixedRelVar isNamed tracksAnonymous ac r).1.toList
  | ac, .node _ :: rest => fixedRelVars isNamed tracksAnonymous ac rest
  | _, [] => []

/-- The variable is bound to a list, which a variable-length relationship may take as the relationships to walk. -/
def isPreboundList (bound : List String) (kinds : VarKinds) (rv : String) : Bool :=
  rv ∈ bound ∧ (kinds[rv]? = some .scalar ∨ kinds[rv]? = some .notNode)

/-- The variable of a relationship, and the counter of anonymous ones after it. -/
def relVarName (scope : PatternScope) (s : PatternPlan ch) (rel : RelPattern) :
    Except PlanError (Option String × Nat) :=
  match rel.var with
  | some rv =>
    if !(rel.length.isSome && isPreboundList scope.bound s.kinds rv) && s.kinds[rv]?.any (· ≠ .rel) then
      .error ⟨"SyntaxError: VariableTypeConflict — '" ++ rv ++
        "' is already bound as a non-relationship but used as a relationship"⟩
    else if rv ∈ s.newRelVars then
      .error ⟨"SyntaxError: RelationshipUniquenessViolation — relationship variable '" ++ rv ++
        "' appears more than once in the same pattern"⟩
    else .ok (some rv, s.anonRelCounter)
  | none =>
    if scope.isNamed then .ok (some (pathRel s.anonRelCounter), s.anonRelCounter + 1)
    else if scope.tracksAnonymous && rel.length.isNone then .ok (some (anonRel s.anonRelCounter), s.anonRelCounter + 1)
    else .ok (none, s.anonRelCounter)

/-- The variable under which a walk of variable length is stored for a named path. -/
def pathCarryVar (scope : PatternScope) (rel : RelPattern) (relVar : Option String) : Option String :=
  if scope.isNamed then
    if rel.var.isSome then some ("_path_carry_" ++ relVar.getD "_") else relVar
  else none

/-- The variable for the relationships of a walk of variable length. -/
def walkRelVar (scope : PatternScope) (i : Nat) (rel : RelPattern) : Option String :=
  match rel.var with
  | some rv => some rv
  | none => if scope.isNamed || rel.properties.isEmpty then none else some ("_anon_vrel_" ++ toString i)

/-- The conditions of a property map joined by `AND`. -/
def allProps (var : String) : List (String × Expr) → Option Expr
  | [] => none
  | p :: rest => some (rest.foldl (fun pred q => .and pred (propEq var q.1 q.2)) (propEq var p.1 p.2))

/-- The filter that every relationship of a walk has the properties of the pattern. -/
def walkFilter (i : Nat) (rel : RelPattern) (walkVar : Option String) : List Expr :=
  let iterVar := "_r_" ++ toString i
  match walkVar, allProps iterVar rel.properties with
  | some rv, some pred => [.listPredicate .all iterVar (.var rv) pred]
  | _, _ => []

/-- The operators of one relationship and the node after it. -/
def planRel (scope : PatternScope) (i : Nat) (rel : RelPattern) (next : NodePattern) (relVar : Option String)
    (kinds : VarKinds) (srcVar dstVar : String) (plan : LogicalPlan ch) : LogicalPlan ch :=
  match rel.length with
  | some vl =>
    let walked :=
      match rel.var.filter (isPreboundList scope.bound kinds) with
      | some listVar => LogicalPlan.boundRelListExpand plan ⟨srcVar, listVar, dstVar, rel.direction⟩
      | none =>
        let walkVar := walkRelVar scope i rel
        withFilters
          (.varLengthExpand plan ⟨srcVar, walkVar, dstVar, rel.relTypes, rel.direction, vl.min, vl.max, scope.optional,
            pathCarryVar scope rel relVar, scope.allFixedRelVars⟩)
          (walkFilter i rel walkVar)
    withFilters walked ((next.labels.map fun l => Expr.hasLabel (.var dstVar) [l]) ++
      next.properties.map fun p => propEq dstVar p.1 p.2)
  | none =>
    .expand plan ⟨srcVar, relVar, dstVar, rel.relTypes, rel.direction, rel.properties, next.labels, next.properties,
      scope.optional, none⟩

/-- The variable of a relationship in the elements of a named path. -/
def elementRelVar (rel : RelPattern) (rv : String) : String :=
  if rel.length.isSome && rel.var.isSome then "_path_carry_" ++ rv else rv

/-- The names of a relationship enter the state of the loop. -/
def enterRel (scope : PatternScope) (s : PatternPlan ch) (rel : RelPattern) (relVar : Option String) (counter : Nat) :
    PatternPlan ch :=
  match relVar with
  | none => { s with anonRelCounter := counter }
  | some rv =>
    let isNew := s.kinds[rv]?.isNone
    { s with
      anonRelCounter := counter
      elementVars := s.elementVars ++ if scope.isNamed then [elementRelVar rel rv] else []
      kinds := if isNew then s.kinds.insert rv .rel else s.kinds
      newRelVars := s.newRelVars ++ if isNew && (rel.var.isSome || startsWith "_anon_rel_" rv) then [rv] else [] }

/-- The names of the node after a relationship enter the state of the loop. -/
def enterNode (scope : PatternScope) (s : PatternPlan ch) (dstVar : String) : PatternPlan ch :=
  let isNew := dstVar ∉ scope.bound ∧ dstVar ∉ s.newNodeVars
  { s with
    newNodeVars := s.newNodeVars ++ if isNew then [dstVar] else []
    kinds := if isNew then s.kinds.insert dstVar .node else s.kinds
    elementVars := s.elementVars ++ if scope.isNamed then [dstVar] else [] }

/-- One relationship and the node after it. -/
def planHop (scope : PatternScope) (i : Nat) (rel : RelPattern) (next : NodePattern) (s : PatternPlan ch) :
    Except PlanError (PatternPlan ch) := do
  let (relVar, counter) ← relVarName scope s rel
  let s' := enterRel scope s rel relVar counter
  let dstVar := nodeVar next ("_anon_n" ++ toString (i + 1)) (scope.bound ++ s'.newNodeVars)
  checkNodeKind next dstVar s'.kinds
  let s'' := enterNode scope s' dstVar
  return { s'' with
    plan := planRel scope i rel next relVar s''.kinds s.lastNodeVar dstVar s.plan
    lastNodeVar := dstVar }

/-- The elements from an index on. -/
def planElements (scope : PatternScope) : Nat → List PatternElement → PatternPlan ch → Except PlanError (PatternPlan ch)
  | i, .relationship rel :: .node next :: rest, s => do planElements scope (i + 2) rest (← planHop scope i rel next s)
  | _, .relationship _ :: _, _ => .error ⟨"relationship must be followed by a node"⟩
  | i, .node _ :: rest, s => planElements scope (i + 1) rest s
  | _, [], s => .ok s

/-- Plan one pattern onto the plan so far: the plan, and the variables it introduces. -/
def planPatternOnto (pattern : Pattern) (current : LogicalPlan ch) (bound : List String) (kinds : VarKinds)
    (optional : Bool) : Except PlanError (PatternPlan ch) :=
  match pattern.elements with
  | .node first :: rest => do
    let firstVar := nodeVar first "_anon_n0" bound
    checkNodeKind first firstVar kinds
    let isBound : Bool := first.var.isSome && decide (firstVar ∈ bound)
    let isNamed := pattern.var.isSome
    let tracks := fixedHopCount pattern > 1 || hasVarlen pattern
    let scope : PatternScope := ⟨isNamed, tracks, bound, optional, fixedRelVars isNamed tracks 0 rest⟩
    let s ← planElements scope 1 rest
      { plan := planFirstNode C current first firstVar isBound optional
        newNodeVars := if isBound then [] else [firstVar]
        newRelVars := []
        kinds := if isBound then kinds else kinds.insert firstVar .node
        elementVars := if isNamed then [firstVar] else []
        anonRelCounter := 0
        lastNodeVar := firstVar }
    match pattern.var with
    | some pathVar => return { s with plan := .namedPath s.plan pathVar s.elementVars }
    | none => return s
  | _ => .error ⟨"pattern must start with a node"⟩

/-! ## Clauses -/

/-- Two relationships are not the same: `r1 IS NULL OR r2 IS NULL OR id(r1) <> id(r2)`. -/
def distinctRels (r1 r2 : String) : Expr :=
  .or (.isNull (.var r1)) (.or (.isNull (.var r2))
    (.compare (.functionCall "id" [.var r1]) .neq (.functionCall "id" [.var r2])))

/-- The pairs of a list, by the index of their first and then of their second item. -/
def pairs {α : Type} : List α → List (α × α)
  | [] => []
  | a :: rest => (rest.map fun b => (a, b)) ++ pairs rest

/-- The filter that no two of the relationships are the same. -/
def buildRelIsomorphismFilter (relVars : List String) : Option Expr :=
  match (pairs relVars).map fun p => distinctRels p.1 p.2 with
  | [] => none
  | first :: rest => some (rest.foldl Expr.and first)

/-- The state of the planner in a clause. -/
structure ClausePlan (ch : Chrono) where
  plan : LogicalPlan ch
  newNodeVars : List String
  newRelVars : List String
  bound : List String
  kinds : VarKinds

/-- The variables that are not in a list yet, at its end. -/
def addNew (known vars : List String) : List String := vars.foldl (fun known v => if v ∈ known then known else known ++ [v]) known

/-- A clause after one of its patterns is planned. -/
def ClausePlan.after (s : ClausePlan ch) (pattern : Pattern) (p : PatternPlan ch) : ClausePlan ch where
  plan := p.plan
  newNodeVars := addNew s.newNodeVars p.newNodeVars
  newRelVars := addNew s.newRelVars p.newRelVars
  bound := pattern.var.toList ++ (p.newRelVars ++ (p.newNodeVars ++ s.bound))
  kinds := pattern.var.elim p.kinds fun pathVar => p.kinds.insert pathVar .path

/-- The variable of an element of a pattern. -/
def elementVar : PatternElement → Option String
  | .node n => n.var
  | .relationship r => r.var

/-- The variable of a path must be new. -/
def checkPathVar (pattern : Pattern) (bound : List String) (kinds : VarKinds) : Except PlanError Unit :=
  match pattern.var with
  | none => .ok ()
  | some pathVar =>
    if kinds[pathVar]?.isSome || pathVar ∈ bound then
      .error ⟨"SyntaxError: VariableAlreadyBound — '" ++ pathVar ++ "' is already bound"⟩
    else if pattern.elements.any fun e => elementVar e = some pathVar then
      .error ⟨"SyntaxError: VariableAlreadyBound — path variable '" ++ pathVar ++
        "' conflicts with a node/relationship variable in the same pattern"⟩
    else .ok ()

/-- The patterns of a clause in turn. -/
def planPatterns (optional : Bool) : List Pattern → ClausePlan ch → Except PlanError (ClausePlan ch)
  | [], s => .ok s
  | pattern :: rest, s => do
    checkPathVar pattern s.bound s.kinds
    let p ← planPatternOnto C pattern s.plan s.bound s.kinds optional
    planPatterns optional rest (s.after pattern p)

/-- The new relationship variables of one hop, as far as the clause can tell. -/
def clauseFixedRelVars (patterns : List Pattern) (newRelVars : List String) : List String :=
  newRelVars.filter fun rv => patterns.any fun pattern => (relationships pattern).any fun r =>
    r.length.isNone && (r.var = some rv || startsWith "_anon_rel_" rv)

/-! ### Conditions pushed into scans -/

/-- A value that can be looked up in an index. -/
def isPushableValue : Expr → Bool
  | .intLit _ | .floatLit _ | .stringLit _ | .boolLit _ | .nullLit | .parameter _ => true
  | _ => false

/-- The equalities of a condition that can be pushed, and the rest of it. -/
def extractPushdownEqualities : Expr → List (String × String × Expr) × Option Expr
  | .and left right =>
    let (leq, lrem) := extractPushdownEqualities left
    let (req, rrem) := extractPushdownEqualities right
    (leq ++ req,
      match lrem, rrem with
      | some l, some r => some (.and l r)
      | some l, none => some l
      | none, r => r)
  | .compare lhs .eq rhs =>
    match lhs, rhs with
    | .property (.var v) prop, rhs =>
      if isPushableValue rhs then ([(v, prop, rhs)], none)
      else
        -- the right side may be the property only if it is not pushable, and then the left side is not
        ([], some (.compare (.property (.var v) prop) .eq rhs))
    | lhs, .property (.var v) prop =>
      if isPushableValue lhs then ([(v, prop, lhs)], none) else ([], some (.compare lhs .eq (.property (.var v) prop)))
    | lhs, rhs => ([], some (.compare lhs .eq rhs))
  | other => ([], some other)

/-- The scan with the first equality on its variable that an index serves, and the index of that equality. -/
def pushIntoScan (scan : LabelScan) (label : String) : List (Nat × String × String × Expr) → Option (PropertyIndexScan × Nat)
  | [] => none
  | (i, v, prop, value) :: rest =>
    if v = scan.var then
      match tryPropertyIndexScan C scan.var label (scan.inlineProps ++ [(prop, value)]) scan.optional with
      | some idxScan => some (idxScan, i)
      | none => pushIntoScan scan label rest
    else pushIntoScan scan label rest

/-- A plan with the equalities pushed into its scans, and the indices of those that were. -/
def applyWherePushdown (equalities : List (Nat × String × String × Expr)) : LogicalPlan ch → LogicalPlan ch × List Nat
  | .labelScan scan =>
    match scan.label.bind fun l => pushIntoScan C scan l equalities with
    | some (idxScan, i) => (.propertyIndexScan idxScan, [i])
    | none => (.labelScan scan, [])
  | .filter input predicate =>
    let (input', used) := applyWherePushdown equalities input
    (.filter input' predicate, used)
  | .expand input op =>
    let (input', used) := applyWherePushdown equalities input
    (.expand input' op, used)
  | .crossProduct left right =>
    let (left', lu) := applyWherePushdown equalities left
    let (right', ru) := applyWherePushdown equalities right
    (.crossProduct left' right', ru ++ lu)
  | other => (other, [])

/-- The condition that is left of a `WHERE` after pushing, and the plan. -/
def pushWhere (plan : LogicalPlan ch) (wc : Expr) : LogicalPlan ch × Option Expr :=
  let (equalities, remaining) := extractPushdownEqualities wc
  if equalities = [] then (plan, some wc)
  else
    let indexed := equalities.mapIdx fun i e => (i, e)
    let (plan', used) := applyWherePushdown C indexed plan
    if used.isEmpty then (plan', some wc)
    else
      (plan', indexed.foldl (fun rebuilt e =>
        if e.1 ∈ used then rebuilt
        else
          let eqExpr := propEq e.2.1 e.2.2.1 e.2.2.2
          some (rebuilt.elim eqExpr fun r => .and r eqExpr)) remaining)

/-! ### `MATCH` and `OPTIONAL MATCH` -/

/-- A relationship of variable length leads to a node with labels or properties. -/
def varlengthDstConstrained : List PatternElement → Bool
  | .relationship r :: .node n :: rest =>
    (r.length.isSome && !(n.labels.isEmpty && n.properties.isEmpty)) || varlengthDstConstrained rest
  | _ :: _ :: rest => varlengthDstConstrained rest
  | _ => false

/-- The first node of a pattern is not bound. -/
def firstUnbound (bound : List String) (pattern : Pattern) : Bool :=
  match pattern.elements with
  | .node n :: _ => n.var.elim true fun v => v ∉ bound
  | _ => false

/-- An `OPTIONAL MATCH` is planned as a left join. -/
def needsLeftJoin (patterns : List Pattern) (whereClause : Option Expr) (bound : List String) : Bool :=
  whereClause.isSome || (patterns.map fun p => (relationships p).length).sum > 1 ||
    (patterns.any fun p => varlengthDstConstrained (p.elements.drop 1)) || patterns.any (firstUnbound bound)

/-- The variables that a pattern of a left join sets to null, in the order they are met. -/
def nullVarsOf (pattern : Pattern) (p : PatternPlan ch) : List String := p.newNodeVars ++ p.newRelVars ++ pattern.var.toList

/-- The inner plan of a left join, from a single row with the variables of the outer rows taken as bound, and the variables
that a row without a match sets to null. -/
def planInnerVars : List Pattern → ClausePlan ch → List String → Except PlanError (ClausePlan ch × List String)
  | [], s, nullVars => .ok (s, nullVars)
  | pattern :: rest, s, nullVars => do
    let p ← planPatternOnto C pattern s.plan s.bound s.kinds false
    planInnerVars rest (s.after pattern p) (addNew nullVars (nullVarsOf pattern p))

/-- The kinds of the new variables as the inner plan knows them. -/
def enterKinds (inner : VarKinds) (vars : List String) (kinds : VarKinds) : VarKinds :=
  vars.foldl (fun kinds v => (inner[v]?).elim kinds fun k => kinds.insert v k) kinds

/-- The state of the planner after a clause. -/
structure Planned (ch : Chrono) where
  plan : LogicalPlan ch
  bound : List String
  kinds : VarKinds

def planOptionalMatchLeftJoin (current : LogicalPlan ch) (patterns : List Pattern) (whereClause : Option Expr)
    (bound : List String) (kinds : VarKinds) : Except PlanError (Planned ch) := do
  let (inner, nullVars) ← planInnerVars C patterns ⟨.singleRow, [], [], bound, kinds⟩ []
  return ⟨.leftJoin current (withFilters inner.plan whereClause.toList) nullVars, nullVars ++ bound,
    enterKinds inner.kinds nullVars kinds⟩

/-- The filter of a clause: no two relationships are the same, and what is left of the `WHERE`. -/
def clauseFilter : Option Expr → Option Expr → Option Expr
  | some iso, some wh => some (.and iso wh)
  | some iso, none => some iso
  | none, wh => wh

def planMatchClause (current : LogicalPlan ch) (patterns : List Pattern) (whereClause : Option Expr) (optional : Bool)
    (bound : List String) (kinds : VarKinds) : Except PlanError (Planned ch) :=
  if optional && needsLeftJoin patterns whereClause bound then
    planOptionalMatchLeftJoin C current patterns whereClause bound kinds
  else do
    let s ← planPatterns C optional patterns ⟨current, [], [], bound, kinds⟩
    match whereClause with
    | some wc => C.checkWhere wc s.bound s.kinds
    | none => .ok ()
    let relIsoFilter := buildRelIsomorphismFilter (clauseFixedRelVars patterns s.newRelVars)
    let (plan, effectiveWhere) := whereClause.elim (s.plan, none) (pushWhere C s.plan)
    return ⟨withFilters plan (clauseFilter relIsoFilter effectiveWhere).toList, s.bound, s.kinds⟩

end PgEddy
