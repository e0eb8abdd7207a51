import PgEddy.Db

/-!
# The operators that write

`CREATE`, `SET`, `REMOVE`, `DELETE`, `MERGE` and `FOREACH`, each over the rows of its input. What an operator has written
stays written when it fails, and only the statement as a whole is undone; `FOREACH` goes on after an error of its body.
-/

namespace PgEddy

open Recorded

abbrev RemoveItem := RemoveItemOf Expr

/-- A part of a statement. Its changes are recorded, each with the session it was made in. -/
abbrev Write (α : Type) := Program Stop Session (Change × Session) α

/-- The errors that nothing goes on after: those of PostgreSQL and panics. -/
def Stop.fatal : Stop → Bool
  | .exec (.error _) => false
  | _ => true

variable {ch : Chrono} (W : World ch)

namespace Write

def change (c : Change) : Write Unit := act (c.apply W) fun s => (c, s)

/-- An `ExecError`. -/
def fail {α : Type} (message : String) : Write α := stop (.exec (.error message))

def ofExec {α : Type} (r : Exec α) : Write α := lift (r.mapError .exec)

/-- A reading of the database as it is. -/
def reading {α : Type} (read : Graph → Exec α) : Write α := do
  let s ← get
  ofExec (read (W.graph s.db))

/-- The value of an expression over the database as it is. -/
def eval (e : Expr) (row : Row ch) (params : Params) : Write (Value ch) :=
  reading W fun G => evalExpr (W.engine G).engine e row params

/-- The properties of a map in a pattern or a clause. -/
def evalProps (props : List (String × Expr)) (row : Row ch) (params : Params) : Write (List (String × Json)) := do
  let entries ← props.mapM fun p => do return (p.1, (← eval W p.2 row params).toJson)
  return Value.jsonMap entries

end Write

open Write

/-! ## `CREATE` -/

/-- A new node, its id and its value. -/
def createNode (via : CreatePath) (n : NodePattern) (row : Row ch) (params : Params) : Write (Int64 × Value ch) := do
  let props ← evalProps W n.properties row params
  change W (.createNode via n.labels props)
  let s ← get
  return (s.db.lastNodeId, .node s.db.lastNodeId n.labels props)

/-- Where the creation of a pattern stands: the row, the node before the next relationship, and whether the next node has
been created already with the relationship that leads to it. -/
structure CreateState (ch : Chrono) where
  row : Row ch
  lastNodeId : Option Int64 := none
  precreated : Bool := false

def bindOpt (row : Row ch) (var : Option String) (v : Value ch) : Row ch := var.elim row fun var => row.insert var v

/-- A node of the pattern: skipped if it is there already, bound if its variable is, else created. `single` is that the
pattern has no other element. -/
def createNodeElement (single : Bool) (n : NodePattern) (s : CreateState ch) (params : Params) : Write (CreateState ch) := do
  match n.var.bind fun v => (s.row[v]?).bind fun existing => existing.nodeId.map fun nodeId => (v, nodeId) with
  | some (v, nodeId) =>
    if single then
      fail s!"SyntaxError: variable `{v}` is already bound; cannot CREATE it as a standalone node"
    else return { s with lastNodeId := some nodeId, precreated := false }
  | none => do
    let (nodeId, val) ← createNode W .pattern n s.row params
    return { row := bindOpt s.row n.var val, lastNodeId := some nodeId }

/-- The node a relationship leads to: the one its variable is bound to, else a new one. -/
def destination (next : Option PatternElement) (s : CreateState ch) (params : Params) :
    Write (Int64 × CreateState ch) := do
  match next with
  | some (.node n) =>
    match n.var.bind fun v => (s.row[v]?).map fun existing => (v, existing) with
    | some (v, existing) =>
      match existing.nodeId with
      | some nodeId => return (nodeId, s)
      | none => fail s!"variable {v} is not a node"
    | none => do
      let (nodeId, val) ← createNode W .destination n s.row params
      return (nodeId, { row := bindOpt s.row n.var val, lastNodeId := some nodeId, precreated := true })
  | _ => fail "relationship must be followed by a node"

/-- A relationship of the pattern and, if it is not there, the node it leads to. -/
def createRelElement (r : RelPattern) (next : Option PatternElement) (s : CreateState ch) (params : Params) :
    Write (CreateState ch) := do
  match s.lastNodeId with
  | none => fail "no source node for relationship"
  | some srcId => do
    let (dstId, s) ← destination W next s params
    let relType := r.relTypes.head?.getD "RELATED_TO"
    let props ← evalProps W r.properties s.row params
    if r.direction = .both then fail "SyntaxError: only directed relationships are supported in CREATE"
    else
      let (source, target) := if r.direction = .in_ then (dstId, srcId) else (srcId, dstId)
      change W (.createEdge false relType source target props)
      let w ← get
      return { s with row := bindOpt s.row r.var (.edge w.db.lastEdgeId relType source target props) }

/-- The elements of a pattern in order. `first` is that none came before. -/
def createElements (single : Bool) (params : Params) : Bool → List PatternElement → CreateState ch → Write (CreateState ch)
  | _, [], s => return s
  | first, .node n :: rest, s => do
    if s.precreated && !first then createElements single params false rest { s with precreated := false }
    else createElements single params false rest (← createNodeElement W single n s params)
  | first, .relationship r :: rest, s => do
    if first then fail "pattern cannot start with a relationship"
    else createElements single params false rest (← createRelElement W r rest.head? s params)

/-- The values at the even places and those at the odd ones. -/
def splitPath : List (Value ch) → List (Value ch) × List (Value ch)
  | [] => ([], [])
  | [n] => ([n], [])
  | n :: r :: rest => (n :: (splitPath rest).1, r :: (splitPath rest).2)

/-- `build_path_from_elem_vars`. -/
def buildPathFromElemVars (elemVars : List String) (row : Row ch) : Value ch :=
  let (nodes, rels) := splitPath (elemVars.map fun v => row[v]?.getD .null)
  .path nodes rels

/-- The variables of the elements of a pattern, with names that no row has for those without. -/
def createElemVar : PatternElement → String
  | .node n => n.var.getD "_anon_n0"
  | .relationship r => r.var.getD "_anon_r"

/-- The row with the path of a pattern, if the pattern has a variable for it. -/
def bindPath (pattern : Pattern) (elements : List PatternElement) (row : Row ch) : Row ch :=
  pattern.var.elim row fun pvar => row.insert pvar (buildPathFromElemVars (elements.map createElemVar) row)

/-- `create_pattern_in_row`. -/
def createPatternInRow (pattern : Pattern) (row : Row ch) (params : Params) : Write (Row ch) := do
  let s ← createElements W (pattern.elements.length = 1) params true pattern.elements { row }
  return bindPath pattern pattern.elements s.row

/-- Index rows are collected while a program runs and written when it ends. If it fails they are lost. -/
def buffered {α : Type} (x : Write α) : Write α := do
  let a ← onError Stop.fatal x (change W .abandon)
  change W .flush
  return a

/-- `exec_create_pattern`: every pattern in every row. -/
def createRows (patterns : List Pattern) (rows : List (Row ch)) (params : Params) : Write (List (Row ch)) :=
  buffered W (rows.mapM fun row => patterns.foldlM (fun row pattern => createPatternInRow W pattern row params) row)

/-! ## `SET` and `REMOVE` -/

/-- The row with the parameters under the names it does not have. -/
def injectParams (row : Row ch) (params : Params) : Write (Row ch) :=
  params.toList.foldlM (fun row p => do
    if row.contains p.1 then return row else return row.insert p.1 (← ofExec (readJson ch p.2))) row

/-- `node_id_from_row`. -/
def nodeIdFromRow (row : Row ch) (var : String) : Write Int64 :=
  match row[var]? with
  | some (.node nodeId ..) => return nodeId
  | some (.int id) => return id
  | some _ => fail s!"variable {var} is not a node"
  | none => fail s!"variable {var} not in scope"

/-- `load_node`. -/
def loadNode (nodeId : Int64) : Write NodeEntry := do
  let s ← get
  match s.db.findNode nodeId with
  | some r => return r
  | none => fail s!"node {nodeId} not found"

/-- A property set to a value, or removed if there is none. -/
def setKey (props : List (String × Json)) (key : String) (v : Option Json) : List (String × Json) :=
  v.elim (removeKey props key) fun v => SortedMap.insert key v props

/-- Properties set one after another, null ones removed: `+=`. -/
def mergeMap (props extra : List (String × Json)) : List (String × Json) :=
  extra.foldl (fun props e => setKey props e.1 (if e.2 = .null then none else some e.2)) props

/-- The value of a row with the properties of the node or relationship changed. -/
def mapProps (f : List (String × Json) → List (String × Json)) : Value ch → Value ch
  | .node nodeId labels props => .node nodeId labels (f props)
  | .edge edgeId relType source target props => .edge edgeId relType source target (f props)
  | v => v

/-- The row with the properties of a variable's node or relationship changed. -/
def updateRow (row : Row ch) (var : String) (f : List (String × Json) → List (String × Json)) : Row ch :=
  match row[var]? with
  | some v => row.insert var (mapProps f v)
  | none => row

/-- A map is no value of a property, nor is a list with one in it. -/
def checkPropertyType (v : Value ch) : Write Unit :=
  match v with
  | .json (.object _) => fail "TypeError: InvalidPropertyType — map is not a valid property value"
  | .json (.array items) =>
    if items.any fun | .object _ => true | _ => false then
      fail "TypeError: InvalidPropertyType — list of maps is not a valid property value"
    else return
  | _ => return

/-- The variable and the key of `var.key`. -/
def setTarget : Expr → Write (String × String)
  | .property (.var var) key => return (var, key)
  | .property _ _ => fail "SET property must reference a variable"
  | _ => fail "SET property must reference a property access"

/-- The properties that `=` and `+=` take from a value, none for null. -/
def sourceProps (var op : String) : Value ch → Write (Option (List (String × Json)))
  | .node _ _ props => return some props
  | .edge _ _ _ _ props => return some props
  | .json (.object m) => return some m
  | .null => return none
  | _ => fail s!"SET {var} {op} must be a map, node, or relationship"

/-- The variable is bound to null, and the item is skipped. -/
def isNullVar (row : Row ch) (var : String) : Bool :=
  match row[var]? with
  | some .null => true
  | _ => false

/-- New properties of a variable's relationship or node. Those of a relationship are made from the copy of it that the row
has, those of a node from the node as it is stored. -/
def assignProps (row : Row ch) (var : String) (f : List (String × Json) → List (String × Json)) : Write (Row ch) := do
  match row[var]? with
  | some (.edge edgeId _ _ _ props) =>
    change W (.setEdgeProps edgeId (f props))
    return updateRow row var f
  | _ => do
    let nodeId ← nodeIdFromRow row var
    let r ← loadNode nodeId
    change W (.setProps nodeId (f r.properties))
    return updateRow row var f

/-- The value of a row with new labels. -/
def mapLabels (f : List String → List String) : Value ch → Value ch
  | .node nodeId labels props => .node nodeId (f labels) props
  | v => v

def updateLabels (row : Row ch) (var : String) (f : List String → List String) : Row ch :=
  match row[var]? with
  | some v => row.insert var (mapLabels f v)
  | none => row

/-- `label` at the end, if it is not there. -/
def addLabel (labels : List String) (label : String) : List String := if label ∈ labels then labels else labels ++ [label]

/-- One item of a `SET`. -/
def setItem (item : SetItem) (row : Row ch) (params : Params) : Write (Row ch) := do
  match item with
  | .property target value => do
    let (var, key) ← setTarget target
    let val ← eval W value row params
    checkPropertyType val
    if isNullVar row var then return row
    else assignProps W row var fun props => setKey props key (if val.isNull then none else some val.toJson)
  | .var var value =>
    if isNullVar row var then return row
    else do
      match ← sourceProps var "=" (← eval W value row params) with
      | none => return row
      | some props => assignProps W row var fun _ => props
  | .mergeMap var value =>
    if isNullVar row var then return row
    else do
      match ← sourceProps var "+=" (← eval W value row params) with
      | none => return row
      | some extra => assignProps W row var fun props => mergeMap props extra
  | .label var labels =>
    if isNullVar row var then return row
    else do
      let nodeId ← nodeIdFromRow row var
      let _ ← loadNode nodeId
      change W (.addLabels nodeId labels)
      return updateLabels row var fun old => labels.foldl addLabel old

/-- `exec_set_prop`: every item in every row. -/
def setRows (items : List SetItem) (rows : List (Row ch)) (params : Params) : Write (List (Row ch)) :=
  rows.mapM fun row => do
    let row ← injectParams row params
    items.foldlM (fun row item => setItem W item row params) row

/-- One item of a `REMOVE`. -/
def removeItem (item : RemoveItem) (row : Row ch) : Write (Row ch) := do
  match item with
  | .property (.var var) key =>
    if isNullVar row var then return row
    else
      match row[var]? with
      | some (.edge edgeId _ _ _ props) =>
        change W (.setEdgeProps edgeId (removeKey props key))
        return updateRow row var fun props => removeKey props key
      | _ => do
        let nodeId ← nodeIdFromRow row var
        let _ ← loadNode nodeId
        change W (.removeProp nodeId key)
        return updateRow row var fun props => removeKey props key
  | .property _ _ => fail "REMOVE property must reference a variable"
  | .label var labels =>
    if isNullVar row var then return row
    else do
      let nodeId ← nodeIdFromRow row var
      let _ ← loadNode nodeId
      change W (.removeLabels nodeId labels)
      return updateLabels row var fun old => old.filter (· ∉ labels)

/-- `exec_remove_prop`. -/
def removeRows (items : List RemoveItem) (rows : List (Row ch)) (params : Params) : Write (List (Row ch)) :=
  rows.mapM fun row => do
    let row ← injectParams row params
    items.foldlM (fun row item => removeItem W item row) row

/-! ## `DELETE` -/

/-- The nodes and relationships that a `DELETE` has deleted already. -/
structure Deleted where
  nodes : List Int64 := []
  edges : List Int64 := []

/-- A relationship is deleted, once. -/
def deleteEdgeOnce (edgeId : Int64) (d : Deleted) : Write Deleted := do
  if edgeId ∈ d.edges then return d
  else
    change W (.deleteEdge edgeId)
    return { d with edges := edgeId :: d.edges }

/-- The ids of the relationships at a node. -/
def incidentEdgeIds (nodeId : Int64) : Write (List Int64) := do
  let s ← get
  let G := W.graph s.db
  return ((G.adjacencyFollow nodeId .out ++ G.adjacencyFollow nodeId .in_).map (·.edgeId)).dedup

/-- A node is deleted, once; with `DETACH` after its relationships. -/
def deleteNodeOnce (detach : Bool) (nodeId : Int64) (d : Deleted) : Write Deleted := do
  if nodeId ∈ d.nodes then return d
  else if detach then do
    let d ← (← incidentEdgeIds W nodeId).foldlM (fun d edgeId => deleteEdgeOnce W edgeId d) d
    change W (.deleteNode .detach nodeId)
    return { d with nodes := nodeId :: d.nodes }
  else do
    change W (.deleteNode .node nodeId)
    return { d with nodes := nodeId :: d.nodes }

/-- A node of a path is deleted, once. -/
def deletePathNode (nodeId : Int64) (d : Deleted) : Write Deleted := do
  if nodeId ∈ d.nodes then return d
  else
    change W (.deleteNode .path nodeId)
    return { d with nodes := nodeId :: d.nodes }

/-- A value is deleted: a node, a relationship, or the relationships of a path and then its nodes. -/
def deleteValue (detach : Bool) (v : Value ch) (d : Deleted) : Write Deleted :=
  match v with
  | .node nodeId .. => deleteNodeOnce W detach nodeId d
  | .null => return d
  | .edge edgeId .. => deleteEdgeOnce W edgeId d
  | .path nodes rels => do
    let d ← (rels.filterMap Value.edgeId).foldlM (fun d edgeId => deleteEdgeOnce W edgeId d) d
    (nodes.filterMap Value.nodeId).foldlM (fun d nodeId => deletePathNode W nodeId d) d
  | _ => fail "DELETE: expected a node"

/-- `exec_delete_nodes`. The rows go on as they are. -/
def deleteRows (exprs : List Expr) (detach : Bool) (rows : List (Row ch)) (params : Params) : Write (List (Row ch)) := do
  let _ ← rows.foldlM (fun d row =>
    exprs.foldlM (fun d e => do deleteValue W detach (← eval W e row params) d) d) ({} : Deleted)
  return rows

/-! ## `MERGE` -/

/-- What the planner asks the catalog for a pattern without a `WHERE`. -/
def Db.catalog (db : Db) : Catalog where
  hasPropertyIndex := db.hasPropertyIndex
  checkWhere _ _ _ := .ok ()

/-- The plan of `MATCH` with the pattern. -/
def mergeMatchPlan (pattern : Pattern) : Write (LogicalPlan ch) := do
  let s ← get
  match planMatchClause s.db.catalog .singleRow [pattern] none false [] ∅ with
  | .ok p => return p.plan
  | .error e => fail e.message

/-- No property of the pattern is null. -/
def checkMergeProps (pattern : Pattern) (row : Row ch) (params : Params) : Write Unit :=
  pattern.elements.forM fun elem => do
    let props := match elem with
      | .node n => n.properties
      | .relationship r => r.properties
    props.forM fun p => do
      if (← eval W p.2 row params).isNull then
        fail s!"SemanticError: MergeReadOwnWrites — MERGE pattern property '{p.1}' cannot be null"

/-- The pattern as it is created: relationships without a direction go out, and the elements of a path have variables. -/
def mergeCreateElement (named : Bool) (i : Nat) : PatternElement → PatternElement
  | .node n =>
    .node (if named && n.var.isNone then { n with var := some s!"_anon_merge_n{i}" } else n)
  | .relationship r =>
    let r := if r.direction = .both then { r with direction := .out } else r
    .relationship (if named && r.var.isNone then { r with var := some s!"_anon_merge_r{i}" } else r)

def mergeCreatePattern (pattern : Pattern) : Pattern :=
  { pattern with elements := pattern.elements.mapIdx (mergeCreateElement pattern.var.isSome) }

/-- `ON CREATE SET` and `ON MATCH SET`: the items in a row made of the parameters and the row, whose bindings go back to it. -/
def mergeSet (items : List SetItem) (row : Row ch) (params : Params) : Write (Row ch) := do
  if items.isEmpty then return row
  else
    let setRow ← setRows W items [∅] (params ∪ row.map fun _ v => v.toJson)
    return setRow.head?.elim row fun r => row ∪ r

/-- `exec_merge_pattern` for one row. -/
def mergeRow (plan : LogicalPlan ch) (pattern : Pattern) (onCreate onMatch : List SetItem) (params : Params)
    (outerRow : Row ch) : Write (List (Row ch)) := do
  let merged : Params := params ∪ outerRow.map fun _ v => v.toJson
  checkMergeProps W pattern outerRow merged
  let found : List (Row ch) ← reading W fun G => execute (W.engine G).engine G plan merged
  if found.isEmpty then do
    let create := mergeCreatePattern pattern
    let row ← buffered W (createPatternInRow W create outerRow merged)
    let row ← mergeSet W onCreate row merged
    return [bindPath pattern create.elements row]
  else
    found.mapM fun row => do
      let row ← mergeSet W onMatch (outerRow ∪ row) merged
      return bindPath pattern pattern.elements row

/-- `exec_merge_pattern`. -/
def mergeRows (pattern : Pattern) (onCreate onMatch : List SetItem) (rows : List (Row ch)) (params : Params) :
    Write (List (Row ch)) := do
  let plan ← mergeMatchPlan pattern
  return (← rows.mapM (mergeRow W plan pattern onCreate onMatch params)).flatten

/-! ## Plans -/

/-- A plan with operators that write. Those that only read are taken as what they make of the graph, the parameters and the
rows of their input. -/
inductive WritePlan (ch : Chrono) where
  | leaf (rows : Graph → Params → Exec (List (Row ch)))
  | reads (input : WritePlan ch) (op : Graph → Params → List (Row ch) → Exec (List (Row ch)))
  /-- The inner plan is executed for every row of the outer one, with its bindings as parameters. -/
  | correlated (outer inner : WritePlan ch) (join : Row ch → List (Row ch) → List (Row ch))
  | union (left right : WritePlan ch) (join : List (Row ch) → List (Row ch) → List (Row ch))
  | createPattern (input : WritePlan ch) (patterns : List Pattern)
  | setProp (input : WritePlan ch) (items : List SetItem)
  | removeProp (input : WritePlan ch) (items : List RemoveItem)
  | deleteNodes (input : WritePlan ch) (exprs : List Expr) (detach : Bool)
  | mergePattern (input : WritePlan ch) (pattern : Pattern) (onCreate onMatch : List SetItem)
  | foreach (input : WritePlan ch) (var : String) (listExpr : Expr) (body : WritePlan ch)
  | createIndex (label key : String)
  | dropIndex (label key : String)
  | createConstraint (label key : String) (kind : ConstraintKind)
  | dropConstraint (label key : String) (kind : ConstraintKind)

/-- The part of a query before its first clause that writes. -/
def WritePlan.read (plan : LogicalPlan ch) : WritePlan ch := .leaf fun G params => execute (W.engine G).engine G plan params

/-- The items that `FOREACH` goes over, none for null. -/
def foreachItems : Value ch → Write (List (Value ch))
  | .json (.array items) => items.mapM fun item => ofExec (readJson ch item)
  | .null => return []
  | v => return [v]

/-- The body for every item of every row, its errors swallowed. Of the row only the item reaches it. -/
def foreachRows (var : String) (listExpr : Expr) (body : Params → Write (List (Row ch))) (rows : List (Row ch))
    (params : Params) : Write (List (Row ch)) := do
  rows.forM fun row => do
    let items ← foreachItems (← eval W listExpr row params)
    items.forM fun item => swallow Stop.fatal (body (params.insert var item.toJson))
  return rows

/-- The creation of patterns over the rows of a plan, if there are any. -/
def thenCreate (pending : Option (List Pattern)) (rows : List (Row ch)) (params : Params) : Write (List (Row ch)) :=
  match pending with
  | none => return rows
  | some patterns => createRows W patterns rows params

/-- `DROP` returns a row that says whether there was something to drop. -/
def droppedRow (dropped : Bool) : List (Row ch) := [(∅ : Row ch).insert "dropped" (.bool dropped)]

/-- The rows of a plan and what it writes. Consecutive `CREATE`s are one operator: `pending` are the patterns of those that
follow the plan. -/
def execWrite : WritePlan ch → Option (List Pattern) → Params → Write (List (Row ch))
  | .createPattern input patterns, pending, params => execWrite input (some (patterns ++ pending.getD [])) params
  | .leaf op, pending, params => do
    thenCreate W pending (← reading W fun G => op G params) params
  | .reads input op, pending, params => do
    let rows ← execWrite input none params
    thenCreate W pending (← reading W fun G => op G params rows) params
  | .correlated outer inner join, pending, params => do
    let rows ← execWrite outer none params
    let joined ← rows.mapM fun row => do
      return join row (← execWrite inner none (params ∪ row.map fun _ v => v.toJson))
    thenCreate W pending joined.flatten params
  | .union left right join, pending, params => do
    let leftRows ← execWrite left none params
    let rightRows ← execWrite right none params
    thenCreate W pending (join leftRows rightRows) params
  | .setProp input items, pending, params => do
    thenCreate W pending (← setRows W items (← execWrite input none params) params) params
  | .removeProp input items, pending, params => do
    thenCreate W pending (← removeRows W items (← execWrite input none params) params) params
  | .deleteNodes input exprs detach, pending, params => do
    thenCreate W pending (← deleteRows W exprs detach (← execWrite input none params) params) params
  | .mergePattern input pattern onCreate onMatch, pending, params => do
    thenCreate W pending (← mergeRows W pattern onCreate onMatch (← execWrite input none params) params) params
  | .foreach input var listExpr body, pending, params => do
    let rows ← execWrite input none params
    thenCreate W pending (← foreachRows W var listExpr (execWrite body none) rows params) params
  | .createIndex label key, pending, params => do
    change W (.createIndex label key)
    thenCreate W pending [] params
  | .dropIndex label key, pending, params => do
    let s ← get
    change W (.dropIndex label key)
    thenCreate W pending (droppedRow ((label, key) ∈ s.db.propIndexCatalog)) params
  | .createConstraint label key kind, pending, params => do
    change W (.createConstraint label key kind)
    thenCreate W pending [] params
  | .dropConstraint label key kind, pending, params => do
    let s ← get
    change W (.dropConstraint label key kind)
    thenCreate W pending (droppedRow ((label, key, kind) ∈ s.db.constraintCatalog)) params

end PgEddy
