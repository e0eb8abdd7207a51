import PgEddy.Lib.SqlText
import PgEddy.Projection

/-!
# Graph views in SQL

`cypher/sql.rs` compiles a query of `MATCH` clauses and a `RETURN` to a query over the mirror tables. The parts of the query are
kept as they are made, each with its text: joins of the tables, conditions of the `WHERE`, and expressions that give `jsonb`.
-/

namespace PgEddy

open SqlText

/-! ## The parts of a query -/

/-- A table of the query: `n0`, `n1`, … are nodes and `r0`, `r1`, … are relationships. -/
inductive SqlAlias where
  | node (i : Nat)
  | edge (i : Nat)
  deriving DecidableEq

def SqlAlias.text : SqlAlias → String
  | .node i => "n" ++ toString i
  | .edge i => "r" ++ toString i

/-- What `compile_json` makes. -/
inductive SqlJson where
  | nodeJson (i : Nat)
  | edgeJson (i : Nat)
  | property (alias_ : SqlAlias) (key : String)
  | constant (value : Json)
  | countStar
  | count (arg : SqlJson)
  | id (alias_ : SqlAlias)
  | labels (i : Nat)
  | type (i : Nat)
  | properties (alias_ : SqlAlias)

/-- What `compile_boolean` makes. -/
inductive SqlBoolean where
  | compare (left : SqlJson) (op : CmpOp) (right : SqlJson)
  | and (left right : SqlBoolean)
  | or (left right : SqlBoolean)
  | xor (left right : SqlBoolean)
  | not (inner : SqlBoolean)
  | isNull (value : SqlJson)
  | isNotNull (value : SqlJson)
  | hasLabel (i : Nat) (labels : List String)
  | isTrue (value : SqlJson)

/-- A condition of the `WHERE`. -/
inductive SqlPredicate where
  | sameNode (i existing : Nat)
  | otherNode (i other : Nat)
  | sameEdge (i existing : Nat)
  | otherEdge (i other : Nat)
  | label (i : Nat) (name : String)
  | relTypes (i : Nat) (types : List String)
  | property (alias_ : SqlAlias) (key : String) (value : Json)
  | boolean (b : SqlBoolean)

/-- A table of the `FROM`: the first node of a pattern, or a relationship or a node joined to what is before it. -/
inductive FromItem where
  | first (i : Nat)
  | joinEdge (i : Nat) (direction : RelDirection) (previous : Nat)
  | joinNode (i : Nat) (direction : RelDirection) (edge previous : Nat)

structure SqlSelect where
  distinct : Bool
  items : List (SqlJson × String)
  from_ : List FromItem
  predicates : List SqlPredicate
  orderBy : List (SqlJson × Bool)
  skip : Option Int64
  limit : Option Int64

inductive SqlQuery where
  | select (s : SqlSelect)
  | union (left : SqlSelect) (all : Bool) (right : SqlQuery)

structure CompiledQuery where
  sql : SqlQuery
  columns : List String

/-! ## Texts -/

/-- The text of JSON, and that of an expression in an error. -/
structure SqlTexts where
  jsonText : Json → String
  debugText : Expr → String

/-- Texts with a separator between them. -/
def joinPieces (separator : String) : List (List Fragment) → List Fragment
  | [] => []
  | [ps] => ps
  | ps :: rest => ps ++ .text separator :: joinPieces separator rest

def cmpSql : CmpOp → String
  | .eq => "="
  | .neq => "<>"
  | .lt => "<"
  | .gt => ">"
  | .le => "<="
  | .ge => ">="

section

variable (T : SqlTexts)

def SqlAlias.piece (a : SqlAlias) : Fragment := .text a.text

def constantJson (value : Json) : List Fragment := [.literal (T.jsonText value), .text "::jsonb"]

def SqlJson.pieces : SqlJson → List Fragment
  | .nodeJson i =>
    [.text "jsonb_build_object(", .literal "node_id", .text ", ", (SqlAlias.node i).piece, .text ".node_id, ", .literal "labels",
      .text ", to_jsonb(", (SqlAlias.node i).piece, .text ".labels), ", .literal "properties", .text ", ",
      (SqlAlias.node i).piece, .text ".properties)"]
  | .edgeJson i =>
    [.text "jsonb_build_object(", .literal "rel_id", .text ", ", (SqlAlias.edge i).piece, .text ".rel_id, ", .literal "rel_type",
      .text ", ", (SqlAlias.edge i).piece, .text ".rel_type, ", .literal "source_node_id", .text ", ", (SqlAlias.edge i).piece,
      .text ".source_node_id, ", .literal "target_node_id", .text ", ", (SqlAlias.edge i).piece, .text ".target_node_id, ",
      .literal "properties", .text ", ", (SqlAlias.edge i).piece, .text ".properties)"]
  | .property a key =>
    [.text "COALESCE(", a.piece, .text ".properties -> ", .literal key, .text ", ", .literal "null", .text "::jsonb)"]
  | .constant value => constantJson T value
  | .countStar => [.text "to_jsonb(count(*))"]
  | .count arg => .text "to_jsonb(count(" :: arg.pieces ++ [.text "))"]
  | .id (.node i) => [.text "to_jsonb(", (SqlAlias.node i).piece, .text ".node_id)"]
  | .id (.edge i) => [.text "to_jsonb(", (SqlAlias.edge i).piece, .text ".rel_id)"]
  | .labels i => [.text "to_jsonb(", (SqlAlias.node i).piece, .text ".labels)"]
  | .type i => [.text "to_jsonb(", (SqlAlias.edge i).piece, .text ".rel_type)"]
  | .properties a => [a.piece, .text ".properties"]

/-- `'label' = ANY(alias.labels)`. -/
def labelPieces (i : Nat) (name : String) : List Fragment :=
  [.literal name, .text " = ANY(", (SqlAlias.node i).piece, .text ".labels)"]

def SqlBoolean.pieces : SqlBoolean → List Fragment
  | .compare left op right => .text "(" :: left.pieces T ++ .text (" " ++ cmpSql op ++ " ") :: right.pieces T ++ [.text ")"]
  | .and left right => .text "(" :: left.pieces ++ .text " AND " :: right.pieces ++ [.text ")"]
  | .or left right => .text "(" :: left.pieces ++ .text " OR " :: right.pieces ++ [.text ")"]
  | .xor left right => .text "(" :: left.pieces ++ .text " <> " :: right.pieces ++ [.text ")"]
  | .not inner => .text "NOT (" :: inner.pieces ++ [.text ")"]
  | .isNull value =>
    .text "(" :: value.pieces T ++ .text " IS NULL OR " :: value.pieces T ++ [.text " = ", .literal "null", .text "::jsonb)"]
  | .isNotNull value =>
    .text "(" :: value.pieces T ++ .text " IS NOT NULL AND " :: value.pieces T ++ [.text " <> ", .literal "null", .text "::jsonb)"]
  | .hasLabel i labels => .text "(" :: joinPieces " AND " (labels.map (labelPieces i)) ++ [.text ")"]
  | .isTrue value => value.pieces T ++ [.text " = ", .literal "true", .text "::jsonb"]

def SqlPredicate.pieces : SqlPredicate → List Fragment
  | .sameNode i existing => [(SqlAlias.node i).piece, .text ".node_id = ", (SqlAlias.node existing).piece, .text ".node_id"]
  | .otherNode i other => [(SqlAlias.node i).piece, .text ".node_id <> ", (SqlAlias.node other).piece, .text ".node_id"]
  | .sameEdge i existing => [(SqlAlias.edge i).piece, .text ".rel_id = ", (SqlAlias.edge existing).piece, .text ".rel_id"]
  | .otherEdge i other => [(SqlAlias.edge i).piece, .text ".rel_id <> ", (SqlAlias.edge other).piece, .text ".rel_id"]
  | .label i name => labelPieces i name
  | .relTypes i types =>
    (SqlAlias.edge i).piece :: .text ".rel_type IN (" :: joinPieces ", " (types.map fun t => [.literal t]) ++ [.text ")"]
  | .property a key value => a.piece :: .text ".properties -> " :: .literal key :: .text " = " :: constantJson T value
  | .boolean b => b.pieces T

/-- `edge.column = node.node_id`. -/
def endPieces (edge : Nat) (column : String) (node : Nat) : List Fragment :=
  [(SqlAlias.edge edge).piece, .text ("." ++ column ++ " = "), (SqlAlias.node node).piece, .text ".node_id"]

/-- `node.node_id = edge.column`. -/
def nodePieces (node edge : Nat) (column : String) : List Fragment :=
  [(SqlAlias.node node).piece, .text ".node_id = ", (SqlAlias.edge edge).piece, .text ("." ++ column)]

def FromItem.pieces (isFirst : Bool) : FromItem → List Fragment
  | .first i => [.text (if isFirst then "_pg_eddy.ivm_nodes AS " else " CROSS JOIN _pg_eddy.ivm_nodes AS "),
    (SqlAlias.node i).piece]
  | .joinEdge i direction previous =>
    .text " JOIN _pg_eddy.ivm_edges AS " :: (SqlAlias.edge i).piece :: .text " ON " ::
      match direction with
      | .out => endPieces i "source_node_id" previous
      | .in_ => endPieces i "target_node_id" previous
      | .both =>
        .text "(" :: endPieces i "source_node_id" previous ++ .text " OR " :: endPieces i "target_node_id" previous ++ [.text ")"]
  | .joinNode i direction edge previous =>
    .text " JOIN _pg_eddy.ivm_nodes AS " :: (SqlAlias.node i).piece :: .text " ON " ::
      match direction with
      | .out => nodePieces i edge "target_node_id"
      | .in_ => nodePieces i edge "source_node_id"
      | .both =>
        .text "((" :: endPieces edge "source_node_id" previous ++ .text " AND " :: nodePieces i edge "target_node_id" ++
          .text ") OR (" :: endPieces edge "target_node_id" previous ++ .text " AND " :: nodePieces i edge "source_node_id" ++
          [.text "))"]

/-- The `FROM`. Only its first table has nothing before it. -/
def fromPieces : List FromItem → List Fragment
  | [] => []
  | item :: items => item.pieces true ++ items.flatMap (FromItem.pieces false)

def itemPieces (item : SqlJson × String) : List Fragment := .text "(" :: item.1.pieces T ++ [.text ")::text AS ", .ident item.2]

def orderPieces (item : SqlJson × Bool) : List Fragment := item.1.pieces T ++ [.text (if item.2 then " ASC" else " DESC")]

def SqlSelect.pieces (s : SqlSelect) : List Fragment :=
  .text (if s.distinct then "SELECT DISTINCT " else "SELECT ") :: joinPieces ", " (s.items.map (itemPieces T)) ++
    .text " FROM " :: fromPieces s.from_ ++
    (if s.predicates.isEmpty then [] else .text " WHERE " :: joinPieces " AND " (s.predicates.map (SqlPredicate.pieces T))) ++
    (if s.orderBy.isEmpty then [] else .text " ORDER BY " :: joinPieces ", " (s.orderBy.map (orderPieces T))) ++
    (s.skip.map fun n => .text (" OFFSET " ++ toString n.toInt)).toList ++
    (s.limit.map fun n => .text (" LIMIT " ++ toString n.toInt)).toList

def SqlQuery.pieces : SqlQuery → List Fragment
  | .select s => s.pieces T
  | .union left all right =>
    .text "(" :: left.pieces T ++ .text (if all then ") UNION ALL (" else ") UNION (") :: right.pieces ++ [.text ")"]

/-- The text of a query. -/
def SqlQuery.text (q : SqlQuery) : String := String.ofList (chars (q.pieces T))

end

/-! ## Constants -/

section

variable (params : Params)

mutual

def constantValue : Expr → Except String Json
  | .intLit i => .ok (.number (.ofI64 i))
  | .floatLit f =>
    match JsonNumber.ofF64? f with
    | some n => .ok (.number n)
    | none => .error "non-finite float constants are not supported"
  | .stringLit s => .ok (.string s)
  | .boolLit b => .ok (.bool b)
  | .nullLit => .ok .null
  | .parameter name =>
    match params[name]? with
    | some v => .ok v
    | none => .error ("missing parameter `$" ++ name ++ "`")
  | .list items => do return .array (← constantValues items)
  | .mapLiteral entries => do return .object (← constantFields entries [])
  | _ => .error "pattern properties must be constants or parameters"

def constantValues : List Expr → Except String (List Json)
  | [] => .ok []
  | e :: es => do
    let v ← constantValue e
    return v :: (← constantValues es)

def constantFields : List (String × Expr) → List (String × Json) → Except String (List (String × Json))
  | [], fields => .ok fields
  | (key, value) :: rest, fields => do constantFields rest (SortedMap.insert key (← constantValue value) fields)

end

def compileNonnegativeInt (e : Expr) : Except String Int64 := do
  match ← constantValue params e with
  | .number n =>
    match n.asI64 with
    | some i => if i < 0 then .error "SKIP/LIMIT must not be negative" else return i
    | none => .error "SKIP/LIMIT must be integer constants"
  | _ => .error "SKIP/LIMIT must be integer constants"

end

/-! ## The compiler -/

structure SqlCompiler where
  bindings : Std.ExtTreeMap String SqlAlias
  nodeOccurrences : List (String × Nat)
  edgeOccurrences : List (String × Nat)
  fromSql : List FromItem
  predicates : List SqlPredicate
  nextNode : Nat
  nextEdge : Nat

namespace SqlCompiler

def init : SqlCompiler := ⟨∅, [], [], [], [], 0, 0⟩

def bothKinds (variable_ : String) : String := "variable `" ++ variable_ ++ "` is used as both node and relationship"

/-- The name of an occurrence: its variable, or one made of its number. -/
def nodeVariable (node : NodePattern) (number : Nat) : String := node.var.getD ("__anonymous_node_" ++ toString number)

def edgeVariable (rel : RelPattern) (number : Nat) : String := rel.var.getD ("__anonymous_edge_" ++ toString number)

/-- A table for a node: the same row as the one its variable is bound to, and another one than those of other variables. -/
def newNode (c : SqlCompiler) (node : NodePattern) : Except String (Nat × SqlCompiler) := do
  let i := c.nextNode
  let variable_ := nodeVariable node (i + 1)
  let others := (c.nodeOccurrences.filter fun o => o.1 ≠ variable_).map fun o => SqlPredicate.otherNode i o.2
  let occurrences := c.nodeOccurrences ++ [(variable_, i)]
  match c.bindings[variable_]? with
  | some (.node existing) =>
    return (i, { c with
      predicates := c.predicates ++ .sameNode i existing :: others, nodeOccurrences := occurrences, nextNode := i + 1 })
  | some (.edge _) => .error (bothKinds variable_)
  | none =>
    return (i, { c with
      bindings := if node.var.isSome then c.bindings.insert variable_ (.node i) else c.bindings
      predicates := c.predicates ++ others, nodeOccurrences := occurrences, nextNode := i + 1 })

def newEdge (c : SqlCompiler) (rel : RelPattern) : Except String (Nat × SqlCompiler) := do
  let i := c.nextEdge
  let variable_ := edgeVariable rel (i + 1)
  let others := (c.edgeOccurrences.filter fun o => o.1 ≠ variable_).map fun o => SqlPredicate.otherEdge i o.2
  let occurrences := c.edgeOccurrences ++ [(variable_, i)]
  match c.bindings[variable_]? with
  | some (.edge existing) =>
    return (i, { c with
      predicates := c.predicates ++ .sameEdge i existing :: others, edgeOccurrences := occurrences, nextEdge := i + 1 })
  | some (.node _) => .error (bothKinds variable_)
  | none =>
    return (i, { c with
      bindings := if rel.var.isSome then c.bindings.insert variable_ (.edge i) else c.bindings
      predicates := c.predicates ++ others, edgeOccurrences := occurrences, nextEdge := i + 1 })

/-- The conditions of inline properties. -/
def propertyFilters (params : Params) (a : SqlAlias) (properties : List (String × Expr)) : Except String (List SqlPredicate) :=
  properties.mapM fun p => do return .property a p.1 (← constantValue params p.2)

def addNodeFilters (params : Params) (c : SqlCompiler) (node : NodePattern) (i : Nat) : Except String SqlCompiler := do
  let properties ← propertyFilters params (.node i) node.properties
  return { c with predicates := c.predicates ++ node.labels.map (SqlPredicate.label i) ++ properties }

def addEdgeFilters (params : Params) (c : SqlCompiler) (rel : RelPattern) (i : Nat) : Except String SqlCompiler := do
  let properties ← propertyFilters params (.edge i) rel.properties
  let types := if rel.relTypes.isEmpty then [] else [SqlPredicate.relTypes i rel.relTypes]
  return { c with predicates := c.predicates ++ types ++ properties }

def addFrom (c : SqlCompiler) (item : FromItem) : SqlCompiler := { c with fromSql := c.fromSql ++ [item] }

/-- The relationships of a pattern, each with the node behind it. -/
def compileChain (params : Params) : SqlCompiler → Nat → List PatternElement → Except String SqlCompiler
  | c, previous, .relationship rel :: .node node :: rest => do
    if rel.length.isSome then .error "variable-length graph views are not implemented yet"
    else
      let (e, c) ← c.newEdge rel
      let (n, c) ← c.newNode node
      let c := (c.addFrom (.joinEdge e rel.direction previous)).addFrom (.joinNode n rel.direction e previous)
      let c ← addEdgeFilters params c rel e
      let c ← addNodeFilters params c node n
      compileChain params c n rest
  | _, _, .node _ :: _ :: _ => .error "expected relationship in pattern chain"
  | _, _, .relationship _ :: .relationship _ :: _ => .error "relationship must be followed by a node"
  | c, _, _ => .ok c

def compilePattern (params : Params) (c : SqlCompiler) (pattern : Pattern) : Except String SqlCompiler := do
  if pattern.var.isSome then .error "named path graph views are not implemented yet"
  else
    match pattern.elements with
    | .node first :: rest =>
      if pattern.elements.length % 2 = 0 then .error "malformed pattern chain"
      else do
        let (n, c) ← c.newNode first
        let c ← addNodeFilters params (c.addFrom (.first n)) first n
        compileChain params c n rest
    | _ => .error "patterns must begin with a node"

/-! ## Expressions -/

section

variable (T : SqlTexts) (params : Params) (bindings : Std.ExtTreeMap String SqlAlias)

def unbound (variable_ : String) : String := "unbound variable `" ++ variable_ ++ "`"

/-- A function of one variable. -/
def compileFunction (name : String) (arguments : List Expr) : Except String SqlJson :=
  match arguments with
  | [.var variable_] =>
    match name.toLower, bindings[variable_]? with
    | "id", some a => .ok (.id a)
    | "labels", some (.node i) => .ok (.labels i)
    | "type", some (.edge i) => .ok (.type i)
    | "properties", some a => .ok (.properties a)
    | _, _ => .error ("unsupported function `" ++ name ++ "`")
  | [_] => .error (name ++ "() requires an entity variable")
  | _ => .error (name ++ "() requires one argument")

def compileJson : Expr → Except String SqlJson
  | .var variable_ =>
    match bindings[variable_]? with
    | some (.node i) => .ok (.nodeJson i)
    | some (.edge i) => .ok (.edgeJson i)
    | none => .error (unbound variable_)
  | .property (.var variable_) key =>
    match bindings[variable_]? with
    | some a => .ok (.property a key)
    | none => .error (unbound variable_)
  | .property _ _ => .error "nested property access is not implemented yet"
  | .functionCall name arguments =>
    if name.toLower = "count" then
      match arguments with
      | [.star] => .ok .countStar
      | [arg] => do return .count (← compileJson arg)
      | _ => .error "count() requires one argument"
    else compileFunction bindings name arguments
  | e@(.intLit _) | e@(.floatLit _) | e@(.stringLit _) | e@(.boolLit _) | e@.nullLit | e@(.parameter _) | e@(.list _)
  | e@(.mapLiteral _) => do return .constant (← constantValue params e)
  | e => .error ("RETURN expression `" ++ T.debugText e ++ "` is not implemented yet")

def compileBoolean : Expr → Except String SqlBoolean
  | .compare left op right => do
    let l ← compileJson T params bindings left
    return .compare l op (← compileJson T params bindings right)
  | .and left right => do
    let l ← compileBoolean left
    return .and l (← compileBoolean right)
  | .or left right => do
    let l ← compileBoolean left
    return .or l (← compileBoolean right)
  | .xor left right => do
    let l ← compileBoolean left
    return .xor l (← compileBoolean right)
  | .not inner => do return .not (← compileBoolean inner)
  | .isNull inner => do return .isNull (← compileJson T params bindings inner)
  | .isNotNull inner => do return .isNotNull (← compileJson T params bindings inner)
  | .hasLabel (.var variable_) labels =>
    match bindings[variable_]? with
    | some (.node i) => .ok (.hasLabel i labels)
    | _ => .error ("unbound node variable `" ++ variable_ ++ "`")
  | .hasLabel _ _ => .error "label predicates require a node variable"
  | e => do return .isTrue (← compileJson T params bindings e)

end

end SqlCompiler

/-! ## Clauses -/

section

variable (T : SqlTexts) (params : Params)

open SqlCompiler

def compileMatch (c : SqlCompiler) : QueryClause → Except String SqlCompiler
  | .match_ false patterns whereClause =>
    if patterns.isEmpty then .error "MATCH must not be empty"
    else do
      let c ← patterns.foldlM (compilePattern params) c
      match whereClause with
      | some predicate => do return { c with predicates := c.predicates ++
        [.boolean (← compileBoolean T params c.bindings predicate)] }
      | none => return c
  | .match_ true _ _ => .error "OPTIONAL MATCH graph views are not implemented yet"
  | .with_ _ _ _ _ _ _ => .error "WITH graph views are not implemented yet"
  | _ => .error "graph views only support MATCH before RETURN"

def outputName (item : ReturnItem) (index : Nat) : String :=
  item.alias_.getD (match item.expr with
    | .var variable_ => variable_
    | .property _ key => key
    | _ => "column_" ++ toString (index + 1))

def validateOutputName (name : String) : Except String Unit :=
  if name.isEmpty || startsWith "__pgt_" name || startsWith "__pgs_" name then .error ("reserved output column `" ++ name ++ "`")
  else .ok ()

/-- The items of the `RETURN`, with columns of different names. -/
def compileItems (c : SqlCompiler) : List (ReturnItem × Nat) → List String → Except String (List (SqlJson × String))
  | [], _ => .ok []
  | (item, index) :: rest, columns => do
    let alias_ := outputName item index
    validateOutputName alias_
    if alias_ ∈ columns then .error ("duplicate output column `" ++ alias_ ++ "`")
    else
      let expression ← compileJson T params c.bindings item.expr
      return (expression, alias_) :: (← compileItems c rest (columns ++ [alias_]))

def compileOptional (e : Option Expr) : Except String (Option Int64) :=
  match e with
  | some e => do return some (← compileNonnegativeInt params e)
  | none => .ok none

/-- The clauses before the `RETURN` are compiled first, and the kind of the last clause is checked before them. -/
def compileBranch (clauses : List QueryClause) : Except String (SqlSelect × List String) := do
  if clauses.length < 2 then .error "graph views require one or more MATCH clauses followed by RETURN"
  else
    match clauses.getLast? with
    | some (.return_ distinct items orderBy skip limit) =>
      if items.isEmpty then .error "RETURN must not be empty"
      else
        let c ← clauses.dropLast.foldlM (compileMatch T params) .init
        let selected ← compileItems T params c items.zipIdx []
        let ordered ← orderBy.mapM fun o => do return (← compileJson T params c.bindings o.expr, o.ascending)
        let skip ← compileOptional params skip
        let limit ← compileOptional params limit
        return (⟨distinct, selected, c.fromSql, c.predicates, ordered, skip, limit⟩, selected.map Prod.snd)
    | _ => .error "graph views must end with RETURN"

def compileQuery : Query → Except String CompiledQuery
  | .mk clauses none => do
    let (s, columns) ← compileBranch T params clauses
    return ⟨.select s, columns⟩
  | .mk clauses (some (all, rightQuery)) => do
    let (s, columns) ← compileBranch T params clauses
    let right ← compileQuery rightQuery
    if columns ≠ right.columns then .error "UNION graph-view branches must return identical columns"
    else return ⟨.union s all right.sql, columns⟩

end

end PgEddy
