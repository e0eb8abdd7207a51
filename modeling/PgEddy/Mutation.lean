import PgEddy.CdcProtocol
import PgEddy.EdgeStore
import PgEddy.Lemmas.PropCells
import PgEddy.Lib.ChangeLog

/-!
# Mutations and the mirror

`storage/mutation.rs`, the calls that change the graph store and tell the mirror tables and the change stream about it, and
`ivm/mirror.rs`, the mirror tables `ivm_nodes` and `ivm_edges`. The catalog that gives ids their names, the JSON library and the
`jsonb` of the tables are parameters, and so is PostgreSQL's page code.
-/

namespace PgEddy

open ChangeLog

/-- `catalog/labels.rs`: the names of the label, relationship type and property key ids. -/
structure Names where
  labelName : Int32 → String
  relTypeName : Int32 → String
  propKeyName : Int32 → String

/-- What the calls run on: PostgreSQL's pages, the catalog, the JSON library, and the `jsonb` that a property map is stored
as. -/
structure Surroundings (J : Type) where
  pg : PgSys
  names : Names
  serde : SerdeJson
  jsonb : JsonMap → J

/-! ## Rows -/

/-- `prop_store::decode` with the names of the catalog. -/
def Names.properties (names : Names) (propBytes : Bytes) : JsonMap :=
  ⟨decode propBytes names.propKeyName, ordered_decode propBytes names.propKeyName⟩

/-- `node_row`. -/
def nodeRow (names : Names) (record : NodeRecord) : NodeRow :=
  { nodeId := record.nodeId
    labels := record.labelIds.map names.labelName
    properties := names.properties record.propBytes }

/-- `edge_row`. -/
def edgeRow (names : Names) (record : EdgeRecord) : EdgeRow :=
  { relId := record.edgeId
    relType := names.relTypeName record.relTypeId
    sourceNodeId := record.sourceNodeId
    targetNodeId := record.targetNodeId
    properties := names.properties record.propBytes }

/-- A row of `ivm_nodes`. -/
structure IvmNode (J : Type) where
  nodeId : Int64
  labels : List String
  properties : J
  deriving DecidableEq

/-- A row of `ivm_edges`. -/
structure IvmEdge (J : Type) where
  relId : Int64
  relType : String
  sourceNodeId : Int64
  targetNodeId : Int64
  properties : J
  deriving DecidableEq

/-! ## The mirror -/

/-- The tables `ivm_nodes` and `ivm_edges`. -/
structure Mirror (J : Type) where
  ivmNodes : List (IvmNode J)
  ivmEdges : List (IvmEdge J)
  deriving DecidableEq

namespace Mirror

variable {J : Type} (env : Surroundings J)

/-- `TRUNCATE` leaves both tables empty. -/
def clear : Mirror J := ⟨[], []⟩

/-- `upsert_node`. -/
def upsertNode (m : Mirror J) (nodeId : Int64) (labels : List String) (properties : JsonMap) : Mirror J :=
  { m with ivmNodes := upsert IvmNode.nodeId m.ivmNodes ⟨nodeId, labels, env.jsonb properties⟩ }

/-- `upsert_node_record`. -/
def upsertNodeRecord (m : Mirror J) (record : NodeRecord) : Mirror J :=
  m.upsertNode env record.nodeId (record.labelIds.map env.names.labelName) (env.names.properties record.propBytes)

/-- `delete_node`. -/
def deleteNode (m : Mirror J) (nodeId : Int64) : Mirror J :=
  { m with ivmNodes := remove IvmNode.nodeId m.ivmNodes nodeId }

/-- `upsert_edge`. -/
def upsertEdge (m : Mirror J) (relId : Int64) (relType : String) (sourceNodeId targetNodeId : Int64)
    (properties : JsonMap) : Mirror J :=
  { m with
    ivmEdges := upsert IvmEdge.relId m.ivmEdges ⟨relId, relType, sourceNodeId, targetNodeId, env.jsonb properties⟩ }

/-- `upsert_edge_record`. -/
def upsertEdgeRecord (m : Mirror J) (record : EdgeRecord) : Mirror J :=
  m.upsertEdge env record.edgeId (env.names.relTypeName record.relTypeId) record.sourceNodeId record.targetNodeId
    (env.names.properties record.propBytes)

/-- `delete_edge`. -/
def deleteEdge (m : Mirror J) (relId : Int64) : Mirror J :=
  { m with ivmEdges := remove IvmEdge.relId m.ivmEdges relId }

/-- `rebuild`: the mirror of what a sequential scan of the nodes and a scan of the edges see, and the count of rows written.
The fuel bounds the rounds of the node scan. -/
def rebuild (be : Backend) (snapshot : Option Snapshot) (s : Store) (fuel : Nat) : Except PgError (Mirror J × Nat) := do
  let nodes ← (NodeScanState.begin s.nodes).collect be s.nodes snapshot fuel
  let edges := scanAllEdges be s.edges
  return (edges.foldl (upsertEdgeRecord env) (nodes.foldl (upsertNodeRecord env) clear), nodes.length + edges.length)

end Mirror

/-! ## The calls -/

/-- An error of a call: one of the storage code, or one that the call raises itself. -/
inductive MutationError where
  | pg (e : PgError)
  | raised (text : String)
  deriving DecidableEq

/-- The session a call runs in: its transaction and the commit log, its location cache, and its active snapshot. -/
structure Caller where
  backend : Backend
  cache : LocationCache
  snapshot : Option Snapshot

/-- The store, its mirror, and the mutations emitted so far. -/
structure MirroredStore (J : Type) where
  store : Store
  mirror : Mirror J
  stream : List Mutation

/-- `load_node_record`. -/
def loadNodeRecord (caller : Caller) (relation : Relation) (nodeId : Int64) : Except PgError (Option NodeRecord) := do
  match ← findNodeById caller.backend caller.cache relation nodeId caller.snapshot with
  | none => return none
  | some record => return some (← resolveOverflow relation record)

/-- `load_edge_record`. -/
def loadEdgeRecord (caller : Caller) (relation : Relation) (edgeId : Int64) : Option EdgeRecord :=
  findEdgeById caller.backend relation edgeId

/-- The record `insert_node` and `update_node` hand to the mirror and the stream. -/
def writtenNode (nodeId : Int64) (labelIds : List Int32) (properties : Bytes) : NodeRecord :=
  { nodeId := nodeId, adjSlotIdx := 0, overflowBlkno := 0, labelIds := labelIds, propBytes := properties }

/-- The record `insert_edge` hands to the mirror and the stream. -/
def writtenEdge (edgeId : Int64) (relTypeId : Int32) (sourceNodeId targetNodeId : Int64) (properties : Bytes) : EdgeRecord :=
  { edgeId := edgeId, relTypeId := relTypeId, sourceNodeId := sourceNodeId, targetNodeId := targetNodeId,
    propBytes := properties, blockNum := 0, offsetNum := 0, nextOutPage := 0, nextOutSlot := 0, nextInPage := 0,
    nextInSlot := 0 }

namespace MirroredStore

variable {J : Type} (env : Surroundings J)

/-- What a call of the storage code returns, with the store it leaves; an error ends the call. -/
def stored {α : Type} (out : Outcome α) : Except MutationError (Store × α) :=
  match out with
  | (_, .error e) => .error (.pg e)
  | (s, .ok a) => .ok (s, a)

/-- A record that is read, or the end of the call. -/
def loaded {α : Type} (r : Except PgError α) : Except MutationError α := r.mapError .pg

/-- `old.unwrap_or_else(..)`: the record read before the change. -/
def captured {α : Type} (old : Option α) (what : String) (id : Int64) (capture : String) : Except MutationError α :=
  match old with
  | some r => .ok r
  | none => .error (.raised s!"pg_eddy: {what} {id} disappeared before CDC {capture} capture")

/-- `cdc_message::emit`: a mutation joins the stream once its message is encoded. -/
def emit (st : MirroredStore J) (mutation : Mutation) : Except MutationError (MirroredStore J) :=
  match PgEddy.emit env.serde mutation with
  | .error text => .error (.raised text)
  | .ok _ => .ok { st with stream := st.stream ++ [mutation] }

/-- `insert_node`. -/
def insertNode (caller : Caller) (st : MirroredStore J) (nodeId : Int64) (labelIds : List Int32) (properties : Bytes) :
    Except MutationError (MirroredStore J) := do
  let (store, _) ← stored (PgEddy.insertNode env.pg caller.backend.xid st.store nodeId labelIds properties)
  let record := writtenNode nodeId labelIds properties
  emit env { st with store := store, mirror := st.mirror.upsertNodeRecord env record } (.nodeInsert (nodeRow env.names record))

/-- `update_node`. -/
def updateNode (caller : Caller) (st : MirroredStore J) (nodeId : Int64) (labelIds : List Int32) (properties : Bytes) :
    Except MutationError (MirroredStore J) := do
  let old ← loaded (loadNodeRecord caller st.store.nodes nodeId)
  let (store, updated) ← stored
    (PgEddy.updateNode env.pg caller.backend.xid caller.cache st.store nodeId labelIds properties)
  if updated then
    let record := writtenNode nodeId labelIds properties
    let mirror := st.mirror.upsertNodeRecord env record
    let old ← captured old "node" nodeId "update"
    emit env { st with store := store, mirror := mirror } (.nodeUpdate (nodeRow env.names old) (nodeRow env.names record))
  else return { st with store := store }

/-- `delete_node_by_id`. -/
def deleteNodeById (caller : Caller) (st : MirroredStore J) (nodeId : Int64) : Except MutationError (MirroredStore J) := do
  let old ← loaded (loadNodeRecord caller st.store.nodes nodeId)
  let (store, deleted) ← stored (PgEddy.deleteNodeById caller.backend.xid caller.cache st.store nodeId)
  if deleted then
    let mirror := st.mirror.deleteNode nodeId
    let old ← captured old "node" nodeId "delete"
    emit env { st with store := store, mirror := mirror } (.nodeDelete (nodeRow env.names old))
  else return { st with store := store }

/-- `insert_edge`. -/
def insertEdge (caller : Caller) (st : MirroredStore J) (edgeId : Int64) (relTypeId : Int32)
    (sourceNodeId targetNodeId : Int64) (properties : Bytes) : Except MutationError (MirroredStore J) := do
  let (store, _) ← stored (PgEddy.insertEdge env.pg caller.backend.xid caller.cache st.store edgeId relTypeId sourceNodeId
    targetNodeId properties)
  let record := writtenEdge edgeId relTypeId sourceNodeId targetNodeId properties
  emit env { st with store := store, mirror := st.mirror.upsertEdgeRecord env record } (.edgeInsert (edgeRow env.names record))

/-- `update_edge_props`. -/
def updateEdgeProps (caller : Caller) (st : MirroredStore J) (edgeId : Int64) (properties : Bytes) :
    Except MutationError (MirroredStore J) := do
  let old := loadEdgeRecord caller st.store.edges edgeId
  let (store, updated) ← stored (PgEddy.updateEdgeProps caller.backend st.store edgeId properties)
  if updated then
    let old ← captured old "edge" edgeId "update"
    let record := { old with propBytes := properties }
    let mirror := st.mirror.upsertEdgeRecord env record
    emit env { st with store := store, mirror := mirror } (.edgeUpdate (edgeRow env.names old) (edgeRow env.names record))
  else return { st with store := store }

/-- `delete_edge`. -/
def deleteEdge (caller : Caller) (st : MirroredStore J) (edgeId : Int64) : Except MutationError (MirroredStore J) := do
  let old := loadEdgeRecord caller st.store.edges edgeId
  let (store, deleted) ← stored (PgEddy.deleteEdge caller.backend.xid st.store edgeId)
  if deleted then
    let mirror := st.mirror.deleteEdge edgeId
    let old ← captured old "edge" edgeId "delete"
    emit env { st with store := store, mirror := mirror } (.edgeDelete (edgeRow env.names old))
  else return { st with store := store }

/-- `clear` of `lib.rs`: the mirror and both relations are truncated, then `emit_graph_reset`. -/
def clear (st : MirroredStore J) : Except MutationError (MirroredStore J) :=
  emit env { st with store := { st.store with nodes := [], edges := [] }, mirror := .clear } .graphReset

end MirroredStore

/-! ## Histories -/

/-- A call with its arguments. -/
inductive MutationCall where
  | insertNode (nodeId : Int64) (labelIds : List Int32) (properties : Bytes)
  | updateNode (nodeId : Int64) (labelIds : List Int32) (properties : Bytes)
  | deleteNodeById (nodeId : Int64)
  | insertEdge (edgeId : Int64) (relTypeId : Int32) (sourceNodeId targetNodeId : Int64) (properties : Bytes)
  | updateEdgeProps (edgeId : Int64) (properties : Bytes)
  | deleteEdge (edgeId : Int64)
  | clear

/-- The call itself. -/
def MutationCall.run {J : Type} (env : Surroundings J) (caller : Caller) (st : MirroredStore J) :
    MutationCall → Except MutationError (MirroredStore J)
  | .insertNode nodeId labelIds properties => st.insertNode env caller nodeId labelIds properties
  | .updateNode nodeId labelIds properties => st.updateNode env caller nodeId labelIds properties
  | .deleteNodeById nodeId => st.deleteNodeById env caller nodeId
  | .insertEdge edgeId relTypeId sourceNodeId targetNodeId properties =>
    st.insertEdge env caller edgeId relTypeId sourceNodeId targetNodeId properties
  | .updateEdgeProps edgeId properties => st.updateEdgeProps env caller edgeId properties
  | .deleteEdge edgeId => st.deleteEdge env caller edgeId
  | .clear => st.clear env

/-- A step of a history: a transaction begins or commits, or a transaction makes a call, with the location cache of its session
and its active snapshot. -/
inductive MutationStep where
  | begin
  | commit (xid : Xid)
  | call (xid : Xid) (cache : LocationCache) (snapshot : Option Snapshot) (c : MutationCall)

/-- The transactions so far and the store with its mirror and its stream. -/
structure MutationState (J : Type) where
  xact : XactState
  graph : MirroredStore J

namespace MutationState

variable {J : Type}

/-- The start of a history: nothing is stored, mirrored or emitted. -/
def start : MutationState J := ⟨XactState.init, ⟨Store.empty, .clear, []⟩⟩

/-- The machine. Transactions may overlap, and all of them commit: a call that raises an error, which would abort its
transaction, has no next state. -/
def step (env : Surroundings J) (st : MutationState J) : MutationStep → Option (MutationState J)
  | .begin => some { st with xact := st.xact.begin }
  | .commit xid => if st.xact.running xid then some { st with xact := st.xact.finish xid .committed } else none
  | .call xid cache snapshot c =>
    if st.xact.running xid then
      match c.run env ⟨st.xact.backend xid, cache, snapshot⟩ st.graph with
      | .ok graph => some { st with graph := graph }
      | .error _ => none
    else none

end MutationState

/-! ## The stream replayed -/

/-- A row of the stream as a row of `ivm_nodes`. -/
def NodeRow.ivm {J : Type} (jsonb : JsonMap → J) (row : NodeRow) : IvmNode J :=
  ⟨row.nodeId, row.labels, jsonb row.properties⟩

/-- A row of the stream as a row of `ivm_edges`. -/
def EdgeRow.ivm {J : Type} (jsonb : JsonMap → J) (row : EdgeRow) : IvmEdge J :=
  ⟨row.relId, row.relType, row.sourceNodeId, row.targetNodeId, jsonb row.properties⟩

/-- What a reader of the stream keeps: the current row of every node and edge. -/
structure Replica where
  nodes : List NodeRow
  edges : List EdgeRow
  deriving DecidableEq

namespace Replica

/-- The replica before the stream begins. -/
def empty : Replica := ⟨[], []⟩

/-- A mutation applied to a replica. None when a row inserted is there already, or when the old image of an update or a delete
is not the current row. -/
def apply (r : Replica) : Mutation → Option Replica
  | .nodeInsert new => ((Change.insert new).apply NodeRow.nodeId r.nodes).map (fun nodes => { r with nodes := nodes })
  | .nodeUpdate old new => ((Change.update old new).apply NodeRow.nodeId r.nodes).map (fun nodes => { r with nodes := nodes })
  | .nodeDelete old => ((Change.delete old).apply NodeRow.nodeId r.nodes).map (fun nodes => { r with nodes := nodes })
  | .edgeInsert new => ((Change.insert new).apply EdgeRow.relId r.edges).map (fun edges => { r with edges := edges })
  | .edgeUpdate old new => ((Change.update old new).apply EdgeRow.relId r.edges).map (fun edges => { r with edges := edges })
  | .edgeDelete old => ((Change.delete old).apply EdgeRow.relId r.edges).map (fun edges => { r with edges := edges })
  | .graphReset => some empty

/-- The mutations applied in order. -/
def replay (r : Replica) (stream : List Mutation) : Option Replica := stream.foldlM apply r

/-- The replica as mirror tables. -/
def mirror {J : Type} (jsonb : JsonMap → J) (r : Replica) : Mirror J :=
  { ivmNodes := r.nodes.map (NodeRow.ivm jsonb), ivmEdges := r.edges.map (EdgeRow.ivm jsonb) }

end Replica

end PgEddy
