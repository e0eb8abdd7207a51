import PgEddy.Planner

/-!
# Executing plans

The operators of a `MATCH`, on the nodes and relationships that the snapshot of the query sees. The bindings of outer rows
reach an inner plan in its parameters.
-/

namespace PgEddy

/-! ## The graph of a snapshot -/

structure NodeEntry where
  labels : List String
  properties : List (String × Json)
  deriving DecidableEq

structure RelRecord where
  edgeId : Int64
  relType : String
  source : Int64
  target : Int64
  properties : List (String × Json)
  deriving DecidableEq

/-- What the storage and the catalog answer under one snapshot. -/
structure Graph where
  /-- The nodes of a sequential scan. -/
  scanNodes : List Int64
  /-- The nodes of a label in the label index. It is none if the catalog has no such label. -/
  labelIndex : String → Option (List Int64)
  findNode : Int64 → Option NodeEntry
  findEdge : Int64 → Option RelRecord
  /-- The relationships at a node, in the order of its chains. -/
  adjacencyFollow : Int64 → RelDirection → List RelRecord
  /-- The nodes that the property index has for a label, a property and a value. -/
  lookupNodes : String → String → Json → List Int64

variable (E : Engine) (G : Graph)

abbrev Engine.Value := PgEddy.Value E.ch

abbrev Engine.Row := PgEddy.Row E.ch

/-! ## Values of the graph -/

/-- The properties that are read, all of them or only the needed ones. -/
def decodeNeeded (needed : Option (List String)) (properties : List (String × Json)) : List (String × Json) :=
  match needed with
  | none => properties
  | some names => properties.filter fun p => p.1 ∈ names

def NodeEntry.value (nodeId : Int64) (needed : Option (List String)) (r : NodeEntry) : E.Value :=
  .node nodeId r.labels (decodeNeeded needed r.properties)

def RelRecord.value (e : RelRecord) : E.Value := .edge e.edgeId e.relType e.source e.target e.properties

/-- The other end of a relationship followed from a node. -/
def RelRecord.other (e : RelRecord) (nodeId : Int64) : RelDirection → Int64
  | .out => e.target
  | .in_ => e.source
  | .both => if e.source = nodeId then e.target else e.source

/-- The relationships at a node that have one of the types, all of them if no type is given. -/
def followTypes (relTypes : List String) (nodeId : Int64) (direction : RelDirection) : List RelRecord :=
  (G.adjacencyFollow nodeId direction).filter fun e => relTypes.isEmpty || relTypes.contains e.relType

/-! ## Bindings -/

/-- The parameters with the bindings of a row over them. -/
def mergeParams (params : Params) (row : E.Row) : Params := params ∪ row.map fun _ v => v.toJson

/-- A variable of the row, else of the parameters. -/
def lookupVar (row : E.Row) (params : Params) (var : String) : Exec (Option E.Value) :=
  match row[var]? with
  | some v => .ok (some v)
  | none =>
    match params[var]? with
    | some pv => some <$> readJson E.ch pv
    | none => .ok none

/-- The binding of a destination. Of the parameters only a variable of the query counts. -/
def boundDst (row : E.Row) (params : Params) (dstVar : String) : Exec (Option E.Value) :=
  match row[dstVar]? with
  | some v => .ok (some v)
  | none => if startsWith "_anon_" dstVar then .ok none else lookupVar E row params dstVar

/-- The value bound only if nothing is bound yet. -/
def orInsert (row : E.Row) (var : String) (v : E.Value) : E.Row := row.insertIfNew var v

def insertOpt (row : E.Row) (var : Option String) (v : E.Value) : E.Row := var.elim row fun var => row.insert var v

/-- A property map holds of a value. The expected values are evaluated in the given row. -/
def propsMatch (val : E.Value) (row : Exec E.Row) (params : Params) : List (String × Expr) → Exec Bool
  | [] => .ok true
  | (key, e) :: rest => do
    let propVal ← getProperty E val key
    let expected ← evalExpr E e (← row) params
    if ← valuesEqual E propVal expected then propsMatch val row params rest else return false

/-! ## Scans -/

/-- The parameters as a row, in which a scan evaluates its inline properties. -/
def scanRow (params : Params) : Exec E.Row := do
  let entries ← params.toList.mapM fun e => do return (e.1, ← readJson E.ch e.2)
  return Std.ExtTreeMap.ofList entries

/-- The row of a scan that is optional and found nothing. -/
def nullRow (var : String) : E.Row := (∅ : E.Row).insert var .null

def orNullRow (optional : Bool) (var : String) (rows : List E.Row) : List E.Row :=
  if optional && rows.isEmpty then [nullRow E var] else rows

/-- The rows of the nodes of a scan that are visible and pass its filters. -/
def scanRows (var : String) (needed : Option (List String)) (label : Option String) (props : List (String × Expr))
    (params : Params) (nodeIds : List Int64) : Exec (List E.Row) :=
  nodeIds.filterMapM fun nid =>
    match G.findNode nid with
    | none => .ok none
    | some r =>
      if label.any fun l => !r.labels.contains l then .ok none
      else do
        let val := r.value E nid needed
        if ← propsMatch E val (scanRow E params) params props then return some ((∅ : E.Row).insert var val)
        else return none

def execLabelScan (scan : LabelScan) (params : Params) : Exec (List E.Row) :=
  match scan.label.elim (some G.scanNodes) G.labelIndex with
  | none => .ok (orNullRow E scan.optional scan.var [])
  | some nodeIds => orNullRow E scan.optional scan.var <$>
      scanRows E G scan.var scan.neededProps none scan.inlineProps params nodeIds

/-- The value is looked up before the other filters are evaluated. A node that has lost the label is left out. -/
def execPropertyIndexScan (scan : PropertyIndexScan) (params : Params) : Exec (List E.Row) := do
  let filterVal ← evalExpr E scan.valueExpr ∅ params
  let nodeIds := G.lookupNodes scan.label scan.prop filterVal.toJson
  orNullRow E scan.optional scan.var <$>
    scanRows E G scan.var none (some scan.label) scan.remainingFilters params nodeIds

/-! ## One hop -/

/-- What is known of the destinations met so far: a node that passed the filters, or none. -/
abbrev DstCache := List (Int64 × Option E.Value)

/-- The destination, from the cache or read and filtered. The row is the one of the first relationship that led there. -/
def readDst (op : Expand) (row : E.Row) (params : Params) (nodeId : Int64) (cache : DstCache E) :
    Exec (Option E.Value × DstCache E) :=
  match cache.lookup nodeId with
  | some cached => .ok (cached, cache)
  | none =>
    match G.findNode nodeId with
    | none => .ok (none, (nodeId, none) :: cache)
    | some r =>
      if !op.dstLabels.all fun l => r.labels.contains l then .ok (none, (nodeId, none) :: cache)
      else do
        let val := r.value E nodeId op.neededDstProps
        if ← propsMatch E val (.ok row) params op.dstProps then return (some val, (nodeId, some val) :: cache)
        else return (none, (nodeId, none) :: cache)

/-- A relationship variable that is bound already, and not to null, takes only its own relationship. -/
def agreesRel (op : Expand) (row : E.Row) (edge : RelRecord) : Bool :=
  match op.relVar.bind fun rv => row[rv]? with
  | none => true
  | some existing => existing.isNull || existing.edgeId = some edge.edgeId

/-- A destination variable that is bound already, and not to null, takes only its own node. -/
def agreesDst (existing : Option E.Value) (dst : E.Value) : Bool :=
  match existing with
  | none => true
  | some v => v.isNull || v.nodeId = dst.nodeId

/-- The row of one relationship, if it matches. -/
def expandEdge (op : Expand) (row : E.Row) (srcVal : E.Value) (params : Params) (nodeId : Int64) (edge : RelRecord)
    (cache : DstCache E) : Exec (Option E.Row × DstCache E) := do
  let (dst, cache) ← readDst E G op row params (edge.other nodeId op.direction) cache
  match dst with
  | none => return (none, cache)
  | some dstVal =>
    let edgeVal := edge.value E
    if !(← propsMatch E edgeVal (.ok row) params op.relProps) then return (none, cache)
    else if !agreesRel E op row edge then return (none, cache)
    else if !agreesDst E (← boundDst E row params op.dstVar) dstVal then return (none, cache)
    else return (some (insertOpt E ((orInsert E row op.srcVar srcVal).insert op.dstVar dstVal) op.relVar edgeVal), cache)

def expandEdges (op : Expand) (row : E.Row) (srcVal : E.Value) (params : Params) (nodeId : Int64) :
    List RelRecord → DstCache E → Exec (List E.Row × DstCache E)
  | [], cache => .ok ([], cache)
  | edge :: edges, cache => do
    let (out, cache) ← expandEdge E G op row srcVal params nodeId edge cache
    let (outs, cache) ← expandEdges op row srcVal params nodeId edges cache
    return (out.toList ++ outs, cache)

/-- The row with null for the destination and the relationship. -/
def nullDst (op : Expand) (row : E.Row) : E.Row := insertOpt E (row.insert op.dstVar .null) op.relVar .null

/-- The row with null for those of the destination and the relationship that it does not bind. -/
def nullNew (op : Expand) (row : E.Row) : E.Row :=
  let row' := if row[op.dstVar]?.isSome then row else row.insert op.dstVar .null
  match op.relVar with
  | some rv => if row[rv]?.isSome then row' else row'.insert rv .null
  | none => row'

/-- The rows of one input row. -/
def expandRow (op : Expand) (row : E.Row) (params : Params) (cache : DstCache E) : Exec (List E.Row × DstCache E) := do
  match ← lookupVar E row params op.srcVar with
  | none => .error (.error ("unbound variable: " ++ op.srcVar))
  | some srcVal =>
    if srcVal.isNull then return (if op.optional then [nullDst E op row] else [], cache)
    else
      match srcVal.nodeId with
      | none => return ([], cache)
      | some nodeId => do
        let (outs, cache) ← expandEdges E G op row srcVal params nodeId (followTypes G op.relTypes nodeId op.direction) cache
        return (if op.optional && outs.isEmpty then [nullNew E op row] else outs, cache)

def expandRows (op : Expand) (params : Params) : List E.Row → DstCache E → Exec (List E.Row)
  | [], _ => .ok []
  | row :: rows, cache => do
    let (outs, cache) ← expandRow E G op row params cache
    return outs ++ (← expandRows op params rows cache)

/-- The row of an optional expansion that has no rows. -/
def nullExpandRow (op : Expand) : E.Row :=
  insertOpt E (((∅ : E.Row).insert op.srcVar .null).insert op.dstVar .null) op.relVar .null

/-- A label that the catalog does not have is on no node. -/
def dstLabelUnsatisfiable (op : Expand) : Bool := op.dstLabels.any fun l => (G.labelIndex l).isNone

def execExpand (op : Expand) (inputRows : List E.Row) (params : Params) : Exec (List E.Row) :=
  if dstLabelUnsatisfiable G op then .ok (if op.optional then inputRows.map (nullDst E op) else [])
  else do
    let result ← expandRows E G op params inputRows []
    return if op.optional && result.isEmpty then [nullExpandRow E op] else result

/-! ## Walks of variable length -/

/-- A walk that the search has reached. Its relationships are the visited ones. -/
structure BfsEntry where
  nodeId : Int64
  depth : Nat
  pathNodeIds : List Int64
  pathEdgeIds : List Int64
  deriving DecidableEq

/-- The walks one relationship longer. -/
def nextEntries (op : VarLengthExpand) (excluded : List Int64) (entry : BfsEntry) : List BfsEntry :=
  ((followTypes G op.relTypes entry.nodeId op.direction).filter fun e =>
      !entry.pathEdgeIds.contains e.edgeId && !excluded.contains e.edgeId).map fun e =>
    let next := e.other entry.nodeId op.direction
    ⟨next, entry.depth + 1, entry.pathNodeIds ++ [next], entry.pathEdgeIds ++ [e.edgeId]⟩

/-- The entries in the order the queue gives them out. It holds the walks of one length before the longer ones, so it is
emptied length by length. -/
def bfsOrder (next : BfsEntry → List BfsEntry) : Nat → List BfsEntry → List BfsEntry
  | 0, entries => entries
  | levels + 1, entries => entries ++ bfsOrder next levels (entries.flatMap next)

/-- The longest walk that is searched. -/
def maxDepth (op : VarLengthExpand) : Nat := min (op.maxHops.getD (2 ^ 32 - 1)) 256

/-- The relationships that are left out: those bound to the excluded variables. -/
def excludedEdgeIds (row : E.Row) (params : Params) : List String → Exec (List Int64)
  | [] => .ok []
  | rv :: rest => do
    let v ← lookupVar E row params rv
    return (v.bind Value.edgeId).toList ++ (← excludedEdgeIds row params rest)

/-- `depth >= min_hops`, and a walk of no relationships only if it is asked for. -/
def isLongEnough (op : VarLengthExpand) (entry : BfsEntry) : Bool :=
  op.minHops ≤ entry.depth && (0 < entry.depth || op.minHops = 0)

def edgeOrNull (edgeId : Int64) : E.Value := ((G.findEdge edgeId).map fun e => e.value E).getD .null

/-- The relationships of a walk as a list. Those that are not found are left out. -/
def buildRelListFromIds (edgeIds : List Int64) : E.Value :=
  .json (.array (edgeIds.filterMap fun id => (G.findEdge id).map fun e => (e.value E).toJson))

/-- A relationship of a walk, with its ends as the direction of the pattern has them. -/
def walkEdge (direction : RelDirection) (ends : Option (Int64 × Int64)) (e : RelRecord) : E.Value :=
  let (src, tgt) := ends.getD (e.source, e.target)
  let (actualSrc, actualTgt) :=
    match direction with
    | .out => (src, tgt)
    | .in_ => (tgt, src)
    | .both => if e.source = src then (e.source, e.target) else (e.target, e.source)
  .edge e.edgeId e.relType actualSrc actualTgt e.properties

/-- The path of a walk. -/
def buildPathFromIds (nodeIds edgeIds : List Int64) (direction : RelDirection) : E.Value :=
  .path (nodeIds.map fun id => ((G.findNode id).map fun r => r.value E id none).getD .null)
    (edgeIds.mapIdx fun i id =>
      let ends := nodeIds[i]?.bind fun a => nodeIds[i + 1]?.map fun b => (a, b)
      ((G.findEdge id).map (walkEdge E direction ends)).getD .null)

/-- The row of a walk. -/
def walkRow (op : VarLengthExpand) (row : E.Row) (srcVal dstVal : E.Value) (entry : BfsEntry) : E.Row :=
  let row := (orInsert E row op.srcVar srcVal).insert op.dstVar dstVal
  let row := insertOpt E row op.relVar (buildRelListFromIds E G entry.pathEdgeIds)
  insertOpt E row op.pathCarryVar (buildPathFromIds E G entry.pathNodeIds entry.pathEdgeIds op.direction)

/-- The row of an entry, if it is long enough, its node is visible and is the one expected. -/
def emitEntry (op : VarLengthExpand) (row : E.Row) (srcVal : E.Value) (expectedDst : Option Int64) (entry : BfsEntry) :
    Option E.Row :=
  if isLongEnough op entry then
    match G.findNode entry.nodeId with
    | none => none
    | some r =>
      if expectedDst.any (· ≠ entry.nodeId) then none
      else some (walkRow E G op row srcVal (r.value E entry.nodeId none) entry)
  else none

/-- The row of an optional walk from no node. -/
def nullWalkSrc (op : VarLengthExpand) (row : E.Row) : List E.Row :=
  if op.optional then [insertOpt E (row.insert op.dstVar .null) op.relVar .null] else []

/-- The row of an optional walk that found nothing. -/
def nullWalk (op : VarLengthExpand) (row : E.Row) (expectedDst : Option Int64) : E.Row :=
  let row := if expectedDst.isNone then row.insert op.dstVar .null else row
  insertOpt E (insertOpt E row op.relVar .null) op.pathCarryVar .null

def walksFrom (op : VarLengthExpand) (excluded : List Int64) (startId : Int64) : List BfsEntry :=
  bfsOrder (nextEntries G op excluded) (maxDepth op) [⟨startId, 0, [startId], []⟩]

def varLengthRow (op : VarLengthExpand) (row : E.Row) (params : Params) : Exec (List E.Row) := do
  match ← lookupVar E row params op.srcVar with
  | none => return nullWalkSrc E op row
  | some .null => return nullWalkSrc E op row
  | some (.node startId labels properties) =>
    let srcVal : E.Value := .node startId labels properties
    let excluded ← excludedEdgeIds E row params op.excludedRelVars
    let expectedDst := (← boundDst E row params op.dstVar).bind Value.nodeId
    let outs := (walksFrom G op excluded startId).filterMap (emitEntry E G op row srcVal expectedDst)
    return if op.optional && outs.isEmpty then [nullWalk E op row expectedDst] else outs
  | some _ => return []

def execVarLengthExpand (op : VarLengthExpand) (inputRows : List E.Row) (params : Params) : Exec (List E.Row) := do
  return (← inputRows.mapM fun row => varLengthRow E G op row params).flatten

/-- The node at the end of a list of relationships, if they follow on each other. -/
def walkList (direction : RelDirection) : Int64 → List E.Value → Option Int64
  | current, [] => some current
  | current, .edge _ _ source target _ :: rest =>
    match direction with
    | .out => if source = current then walkList direction target rest else none
    | .in_ => if target = current then walkList direction source rest else none
    | .both =>
      if source = current then walkList direction target rest
      else if target = current then walkList direction source rest
      else none
  | _, _ :: _ => none

def boundRelListRow (op : BoundRelListExpand) (row : E.Row) (params : Params) : Exec (Option E.Row) := do
  match (← lookupVar E row params op.srcVar).bind Value.nodeId with
  | none => return none
  | some srcId =>
    match ← lookupVar E row params op.listVar with
    | some (.json (.array items)) =>
      let edges ← items.mapM (readJson E.ch)
      match walkList E op.direction srcId edges with
      | none => return none
      | some endId =>
        let expectedDst := (← boundDst E row params op.dstVar).bind Value.nodeId
        if expectedDst.any (· ≠ endId) then return none
        else return (G.findNode endId).map fun r => row.insert op.dstVar (r.value E endId none)
    | _ => return none

def execBoundRelListExpand (op : BoundRelListExpand) (inputRows : List E.Row) (params : Params) : Exec (List E.Row) :=
  inputRows.filterMapM fun row => boundRelListRow E G op row params

/-! ## The ends of a relationship -/

def nodeOrNull (nodeId : Int64) : E.Value := ((G.findNode nodeId).map fun r => r.value E nodeId none).getD .null

/-- `startNode(r)`. -/
def startNode : E.Value → Exec E.Value
  | .edge _ _ source _ _ => .ok (nodeOrNull E G source)
  | .null => .ok .null
  | _ => .error (.error "startNode() requires a relationship value")

/-- `endNode(r)`. -/
def endNode : E.Value → Exec E.Value
  | .edge _ _ _ target _ => .ok (nodeOrNull E G target)
  | .null => .ok .null
  | _ => .error (.error "endNode() requires a relationship value")

/-! ## Paths -/

def getOrNull (row : E.Row) (var : String) : E.Value := row[var]?.getD .null

/-- The relationships of a carried path, each with the node after it if there is one. -/
def inlinePath : List E.Value → List E.Value → List E.Value × List E.Value
  | [], _ => ([], [])
  | r :: rels, node :: nodes => let (ns, rs) := inlinePath rels nodes; (node :: ns, r :: rs)
  | r :: rels, [] => let (ns, rs) := inlinePath rels []; (ns, r :: rs)

/-- The relationship of a path element and what it stands for: itself and the node after it, or a carried path. -/
def pathStep (row : E.Row) (relVar : String) (nodeVar : Option String) : List E.Value × List E.Value :=
  match getOrNull E row relVar with
  | .path pnodes prels => inlinePath E prels (pnodes.drop 1)
  | v => ((nodeVar.map (getOrNull E row)).toList, [v])

/-- The nodes and relationships of a path after its first node. -/
def pathSteps (row : E.Row) : List String → List E.Value × List E.Value
  | relVar :: nodeVar :: rest =>
    let (nodes, rels) := pathStep E row relVar (some nodeVar)
    let (nodes', rels') := pathSteps row rest
    (nodes ++ nodes', rels ++ rels')
  | [relVar] => pathStep E row relVar none
  | [] => ([], [])

/-- The elements of the relationships of a path. -/
def relSlots : List String → List String
  | _ :: rel :: rest => rel :: relSlots rest
  | _ => []

/-- A row with its path, none if the path has a relationship twice. -/
def namedPathRow (pathVar : String) (elementVars : List String) (row : E.Row) : Option E.Row :=
  if elementVars.length = 1 then
    some (row.insert pathVar (.path (elementVars.map (getOrNull E row)) []))
  else if (relSlots elementVars).any fun rv => (getOrNull E row rv).isNull then some (row.insert pathVar .null)
  else
    let (nodes, rels) := pathSteps E row (elementVars.drop 1)
    if (rels.filterMap Value.edgeId).Nodup then
      some (row.insert pathVar (.path ((elementVars.take 1).map (getOrNull E row) ++ nodes) rels))
    else none

/-! ## Plans -/

def execFilter (predicate : Expr) (rows : List E.Row) (params : Params) : Exec (List E.Row) :=
  rows.filterMapM fun row => do return if (← evalExpr E predicate row params).isTruthy then some row else none

/-- The rows of an outer row: those of the inner plan over it, or the row with its new variables null. -/
def leftJoinRow (nullVars : List String) (outerRow : E.Row) (innerRows : List E.Row) : List E.Row :=
  if innerRows.isEmpty then [nullVars.foldl (fun row v => row.insert v .null) outerRow]
  else innerRows.map fun innerRow => outerRow ∪ innerRow

/-- The rows of a plan. -/
def execute : LogicalPlan E.ch → Params → Exec (List E.Row)
  | .singleRow, _ => .ok [∅]
  | .labelScan scan, params => execLabelScan E G scan params
  | .propertyIndexScan scan, params => execPropertyIndexScan E G scan params
  | .expand input op, params => do execExpand E G op (← execute input params) params
  | .varLengthExpand input op, params => do execVarLengthExpand E G op (← execute input params) params
  | .boundRelListExpand input op, params => do execBoundRelListExpand E G op (← execute input params) params
  | .namedPath input pathVar elementVars, params => do
    return (← execute input params).filterMap (namedPathRow E pathVar elementVars)
  | .crossProduct left right, params => do
    let results ← (← execute left params).mapM fun leftRow => do
      return (← execute right (mergeParams E params leftRow)).map fun rightRow => leftRow ∪ rightRow
    return results.flatten
  | .filter input predicate, params => do execFilter E predicate (← execute input params) params
  | .leftJoin outer inner nullVars, params => do
    let results ← (← execute outer params).mapM fun outerRow => do
      return leftJoinRow E nullVars outerRow (← execute inner (mergeParams E params outerRow))
    return results.flatten
  | .rows run, params => run params

end PgEddy
