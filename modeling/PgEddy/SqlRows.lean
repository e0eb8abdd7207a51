import PgEddy.Mutation
import PgEddy.SqlCompiler

/-!
# The rows of a compiled query

What PostgreSQL makes of the `FROM` and the `WHERE` of a compiled query over the mirror tables, and, next to it, what the patterns
of the query say of a list of nodes and a list of relationships.
-/

namespace PgEddy

/-- The rows that the tables of a query stand for. -/
structure SqlEnv (J : Type) where
  nodes : Nat → Option (IvmNode J)
  edges : Nat → Option (IvmEdge J)

/-- What PostgreSQL does with `jsonb`: the cast of a constant, `->`, `=`, and the truth of the conditions of a `WHERE`. -/
structure Jsonb (J : Type) where
  cast : Json → J
  get : J → String → Option J
  equal : J → J → Bool
  truth : SqlEnv J → SqlBoolean → Option Bool

namespace SqlEnv

variable {J : Type}

def empty : SqlEnv J := ⟨fun _ => none, fun _ => none⟩

def bindNode (env : SqlEnv J) (i : Nat) (n : IvmNode J) : SqlEnv J :=
  { env with nodes := fun j => if j = i then some n else env.nodes j }

def bindEdge (env : SqlEnv J) (i : Nat) (e : IvmEdge J) : SqlEnv J :=
  { env with edges := fun j => if j = i then some e else env.edges j }

def nodeId (env : SqlEnv J) (i : Nat) : Option Int64 := (env.nodes i).map IvmNode.nodeId

def relId (env : SqlEnv J) (i : Nat) : Option Int64 := (env.edges i).map IvmEdge.relId

def properties (env : SqlEnv J) : SqlAlias → Option J
  | .node i => (env.nodes i).map IvmNode.properties
  | .edge i => (env.edges i).map IvmEdge.properties

end SqlEnv

section

variable {J : Type} (B : Jsonb J) (m : Mirror J)

/-! ## Joins and conditions -/

/-- An edge of a row leaves the node, reaches it, or either. -/
def touches (direction : RelDirection) (e : IvmEdge J) (nodeId : Int64) : Bool :=
  match direction with
  | .out => e.sourceNodeId = nodeId
  | .in_ => e.targetNodeId = nodeId
  | .both => e.sourceNodeId = nodeId || e.targetNodeId = nodeId

/-- An edge joins a node to another one in the direction. -/
def joinsTo (direction : RelDirection) (e : IvmEdge J) (previous nodeId : Int64) : Bool :=
  match direction with
  | .out => nodeId = e.targetNodeId
  | .in_ => nodeId = e.sourceNodeId
  | .both =>
    (e.sourceNodeId = previous && nodeId = e.targetNodeId) || (e.targetNodeId = previous && nodeId = e.sourceNodeId)

/-- The rows with one more table. -/
def FromItem.extend (env : SqlEnv J) : FromItem → List (SqlEnv J)
  | .first i => m.ivmNodes.map (env.bindNode i)
  | .joinEdge i direction previous =>
    (m.ivmEdges.filter fun e => (env.nodeId previous).any (touches direction e)).map (env.bindEdge i)
  | .joinNode i direction edge previous =>
    (m.ivmNodes.filter fun n => (env.edges edge).any fun e =>
    (env.nodeId previous).any fun p => joinsTo direction e p n.nodeId).map
      (env.bindNode i)

/-- The `FROM`, from left to right. -/
def fromRows (items : List FromItem) : List (SqlEnv J) :=
  items.foldl (fun envs item => envs.flatMap fun env => item.extend m env) [.empty]

/-- Two values are known and are the same. -/
def sameValue {α : Type} [DecidableEq α] (a b : Option α) : Bool := a.any fun x => b.any fun y => x = y

/-- Two values are known and differ. -/
def otherValue {α : Type} [DecidableEq α] (a b : Option α) : Bool := a.any fun x => b.any fun y => x ≠ y

/-- A condition of the `WHERE` is true. -/
def SqlPredicate.holds (env : SqlEnv J) : SqlPredicate → Bool
  | .sameNode i existing => sameValue (env.nodeId i) (env.nodeId existing)
  | .otherNode i other => otherValue (env.nodeId i) (env.nodeId other)
  | .sameEdge i existing => sameValue (env.relId i) (env.relId existing)
  | .otherEdge i other => otherValue (env.relId i) (env.relId other)
  | .label i name => (env.nodes i).any fun n => name ∈ n.labels
  | .relTypes i types => (env.edges i).any fun e => e.relType ∈ types
  | .property a key value => ((env.properties a).bind fun ps => B.get ps key).any fun v => B.equal v (B.cast value)
  | .boolean b => B.truth env b = some true

/-- The rows of the `FROM` that the `WHERE` keeps. -/
def SqlSelect.rows (s : SqlSelect) : List (SqlEnv J) :=
  (fromRows m s.from_).filter fun env => s.predicates.all (SqlPredicate.holds B env)

/-! ## Patterns -/

variable (params : Params)

/-- The properties have the constants of a map. -/
def propertiesFit (properties : J) (entries : List (String × Expr)) : Prop :=
  ∀ p ∈ entries, ∃ value v, constantValue params p.2 = .ok value ∧ B.get properties p.1 = some v ∧ B.equal v (B.cast value) = true

def nodeFits (node : NodePattern) (n : IvmNode J) : Prop :=
  n ∈ m.ivmNodes ∧ (∀ l ∈ node.labels, l ∈ n.labels) ∧ propertiesFit B params n.properties node.properties

def edgeFits (rel : RelPattern) (e : IvmEdge J) : Prop :=
  e ∈ m.ivmEdges ∧ (rel.relTypes = [] ∨ e.relType ∈ rel.relTypes) ∧ propertiesFit B params e.properties rel.properties

/-- An edge goes from a node to another one, in the direction of the relationship. -/
def connects (direction : RelDirection) (v : IvmNode J) (e : IvmEdge J) (w : IvmNode J) : Prop :=
  match direction with
  | .out => e.sourceNodeId = v.nodeId ∧ e.targetNodeId = w.nodeId
  | .in_ => e.sourceNodeId = w.nodeId ∧ e.targetNodeId = v.nodeId
  | .both => (e.sourceNodeId = v.nodeId ∧ e.targetNodeId = w.nodeId) ∨ (e.sourceNodeId = w.nodeId ∧ e.targetNodeId = v.nodeId)

/-- Nodes and relationships fit a chain behind a node. -/
def chainFits : List PatternElement → IvmNode J → List (IvmNode J) → List (IvmEdge J) → Prop
  | .relationship rel :: .node node :: rest, v, w :: vs, e :: es =>
    edgeFits B m params rel e ∧ connects rel.direction v e w ∧ nodeFits B m params node w ∧ chainFits rest w vs es
  | [], _, [], [] => True
  | _, _, _, _ => False

def patternFits (pattern : Pattern) (vs : List (IvmNode J)) (es : List (IvmEdge J)) : Prop :=
  match pattern.elements, vs with
  | .node first :: rest, v :: vs => nodeFits B m params first v ∧ chainFits B m params rest v vs es
  | _, _ => False

/-- Nodes and relationships fit patterns one after the other. -/
def patternsFit : List Pattern → List (IvmNode J) → List (IvmEdge J) → Prop
  | [], vs, es => vs = [] ∧ es = []
  | p :: ps, vs, es =>
    ∃ vs₁ vs₂ es₁ es₂, vs = vs₁ ++ vs₂ ∧ es = es₁ ++ es₂ ∧ patternFits B m params p vs₁ es₁ ∧ patternsFit ps vs₂ es₂

end

/-! ## Variables -/

/-- The variables of the nodes of a pattern, in order. -/
def elementNodeVars (elements : List PatternElement) : List (Option String) :=
  elements.filterMap fun
    | .node n => some n.var
    | .relationship _ => none

def elementEdgeVars (elements : List PatternElement) : List (Option String) :=
  elements.filterMap fun
    | .relationship r => some r.var
    | .node _ => none

def nodeVars (patterns : List Pattern) : List (Option String) := patterns.flatMap fun p => elementNodeVars p.elements

def edgeVars (patterns : List Pattern) : List (Option String) := patterns.flatMap fun p => elementEdgeVars p.elements

/-- The table of a variable: the one of its first place. -/
def tableOf (nvars evars : List (Option String)) (v : String) : Option SqlAlias :=
  ((nvars.idxOf? (some v)).map SqlAlias.node).or ((evars.idxOf? (some v)).map SqlAlias.edge)

/-- Two places have the same thing if and only if they have the same variable. -/
def byVariable {ι : Type} (places : List (Option String × ι)) : Prop :=
  places.Pairwise fun p q => p.2 = q.2 ↔ ∃ v, p.1 = some v ∧ q.1 = some v

/-- The patterns of `MATCH` clauses, in order. -/
def matchPatterns (clauses : List QueryClause) : List Pattern :=
  clauses.flatMap fun
    | .match_ _ patterns _ => patterns
    | _ => []

/-- Rows by their places: the first node is `n0`, and the first relationship is `r0`. -/
def envOf {J : Type} (vs : List (IvmNode J)) (es : List (IvmEdge J)) : SqlEnv J := ⟨fun i => vs[i]?, fun i => es[i]?⟩

end PgEddy
