import PgEddy.Db
import PgEddy.History
import PgEddy.Mutation

/-!
# The location cache

`catalog/locations.rs`: the table `_pg_eddy.node_location` records where a node was inserted, and every session has a copy of it,
`NODE_LOCATION_CACHE`, that `cypher` loads and that stays until the next `cypher`. `clear` of `lib.rs` truncates the relations
and the table.
-/

namespace PgEddy

/-- `HashMap::insert` on `NODE_LOCATION_CACHE`, which is all that `cache_node_location` does. -/
def LocationCache.insert (cache : LocationCache) (nodeId : Int64) (pageNum offsetNum : Nat) : LocationCache :=
  fun n => if n = nodeId then some (pageNum, offsetNum) else cache n

/-- A row of `_pg_eddy.node_location` and the transaction that wrote it. An update on a conflict of `node_id` is a row behind the
row it replaces. -/
structure LocationRow where
  nodeId : Int64
  pageNum : Nat
  offsetNum : Nat
  xmin : Xid
  deriving DecidableEq, Repr

/-- `load_node_location_cache`, with `clear_node_location_cache` before it: the rows the session sees. -/
def loadNodeLocationCache (be : Backend) (rows : List LocationRow) : LocationCache :=
  (rows.filter (fun r => be.isCurrent r.xmin || be.didCommit r.xmin)).foldl
    (fun cache r => cache.insert r.nodeId r.pageNum r.offsetNum) .empty

/-- `get_node`. -/
def getNode (names : Names) (be : Backend) (cache : LocationCache) (rel : Relation) (nodeId : Int64)
    (snapshot : Option Snapshot) : Except PgError (Option NodeRow) := do
  match ← findNodeById be cache rel nodeId snapshot with
  | none => return none
  | some r => return some (nodeRow names (← resolveOverflow rel r))

/-- A session: its cache, and the locations of nodes it has inserted and not recorded yet. `create_node` records the location
right after the insertion, `cypher` when its `CatalogWriteBuffer` is flushed. -/
structure LocationSession where
  cache : LocationCache
  unrecorded : List (Int64 × Nat × Nat)

namespace LocationSession

/-- A session that has just connected. -/
def new : LocationSession := ⟨.empty, []⟩

/-- `record_node_location` and `CatalogWriteBuffer::flush` for the locations not recorded yet, the part in the session. -/
def record (s : LocationSession) : LocationSession where
  cache := s.unrecorded.foldl (fun cache (nodeId, pageNum, offsetNum) => cache.insert nodeId pageNum offsetNum) s.cache
  unrecorded := []

end LocationSession

/-- A call on the storage that inserts no node. -/
inductive StorageCall where
  | updateNode (nodeId : Int64) (newLabelIds : List Int32) (newPropBytes : Bytes)
  | deleteNode (nodeId : Int64)
  | insertEdge (edgeId : Int64) (relTypeId : Int32) (srcNodeId tgtNodeId : Int64) (propBytes : Bytes)
  | deleteEdge (edgeId : Int64)

/-- The call as a transaction makes it, through the cache of its session. -/
def StorageCall.op (xid : Xid) (cache : LocationCache) : StorageCall → GraphOp
  | .updateNode nodeId newLabelIds newPropBytes => .updateNode xid cache nodeId newLabelIds newPropBytes
  | .deleteNode nodeId => .deleteNode xid cache nodeId
  | .insertEdge edgeId relTypeId srcNodeId tgtNodeId propBytes =>
    .insertEdge xid cache edgeId relTypeId srcNodeId tgtNodeId propBytes
  | .deleteEdge edgeId => .deleteEdge xid edgeId

/-- The transactions with the store, `node_id_seq`, the table of locations, and the sessions. `truncated` has what the rollback
of a transaction that has called `clear` brings back: the table and the sequence, not the relations of the store. -/
structure LocationState where
  history : HistoryState
  nodeIdSeq : Nat
  nodeLocation : List LocationRow
  truncated : List (Xid × List LocationRow × Nat)
  sessions : List LocationSession

/-- What happens next. A session calls `create_node` as `insertNode` and `recordLocations`; `cypher` as `cypher`, which clears
and loads the cache, and then whatever its query does; `update_node`, `delete_node`, `detach_delete_node` and the calls on edges
as calls on the storage. -/
inductive LocationEvent where
  | begin
  | commit (xid : Xid)
  | abort (xid : Xid)
  | cypher (session : Nat) (xid : Xid)
  | insertNode (session : Nat) (xid : Xid) (labelIds : List Int32) (propBytes : Bytes)
  | recordLocations (session : Nat) (xid : Xid)
  /-- The statement ends in an error before it records the locations. -/
  | dropLocations (session : Nat)
  | call (session : Nat) (xid : Xid) (c : StorageCall)
  | updateEdgeProps (xid : Xid) (edgeId : Int64) (newPropBytes : Bytes)
  | clear (xid : Xid)

namespace LocationState

/-- A new extension, to which sessions have connected. -/
def start (sessions : Nat) : LocationState := ⟨.start .empty, 0, [], [], List.replicate sessions .new⟩

/-- Replace a session. -/
def setSession (st : LocationState) (i : Nat) (s : LocationSession) : LocationState :=
  { st with sessions := st.sessions.set i s }

/-- The transactions and the store go on. -/
def withHistory (st : LocationState) (history : HistoryState) : LocationState := { st with history := history }

/-- `clear`: what it empties and starts again. -/
def cleared (st : LocationState) (xid : Xid) : LocationState :=
  { st with
    history := { st.history with store := { st.history.store with nodes := [], edges := [] } }
    nodeIdSeq := 0
    nodeLocation := []
    truncated := st.truncated ++ [(xid, st.nodeLocation, st.nodeIdSeq)] }

/-- The machine. `clear` waits for the transactions that have written a node and not recorded its location, whose locks on the
tables it needs. -/
def step (pg : PgSys) (st : LocationState) : LocationEvent → Option LocationState
  | .begin => (st.history.step pg .begin).map st.withHistory
  | .commit xid => (st.history.step pg (.commit xid)).map fun history =>
    { st with history := history, truncated := st.truncated.filter (fun t => t.1 != xid) }
  | .abort xid => (st.history.step pg (.abort xid)).map fun history =>
    match st.truncated.find? (fun t => t.1 == xid) with
    | none => st.withHistory history
    | some (_, nodeLocation, nodeIdSeq) =>
      { st with
        history := history, nodeLocation := nodeLocation, nodeIdSeq := nodeIdSeq
        truncated := st.truncated.filter (fun t => t.1 != xid) }
  | .cypher i xid => do
    let s ← st.sessions[i]?
    if st.history.xact.running xid then
      some (st.setSession i { s with cache := loadNodeLocationCache (st.history.xact.backend xid) st.nodeLocation })
    else none
  | .insertNode i xid labelIds propBytes => do
    let s ← st.sessions[i]?
    -- `next_node_id`, whose error ends the call, and `insert_node`
    let seq ← nextval st.nodeIdSeq
    let history ← st.history.step pg (.call (.insertNode xid (Int64.ofNat seq) labelIds propBytes))
    let st' := { st with history := history, nodeIdSeq := seq }
    match (PgEddy.insertNode pg xid st.history.store (Int64.ofNat seq) labelIds propBytes).2 with
    | .ok (blkno, off) => some (st'.setSession i { s with unrecorded := s.unrecorded ++ [(Int64.ofNat seq, blkno, off)] })
    | .error _ => some st'
  | .recordLocations i xid => do
    let s ← st.sessions[i]?
    if st.history.xact.running xid then
      some { st.setSession i s.record with
        nodeLocation := st.nodeLocation ++ s.unrecorded.map (fun (nodeId, pageNum, offsetNum) =>
          ⟨nodeId, pageNum, offsetNum, xid⟩) }
    else none
  | .dropLocations i => do
    let s ← st.sessions[i]?
    some (st.setSession i { s with unrecorded := [] })
  | .call i xid c => do
    let s ← st.sessions[i]?
    (st.history.step pg (.call (c.op xid s.cache))).map st.withHistory
  | .updateEdgeProps xid edgeId newPropBytes =>
    (st.history.step pg (.updateEdgeProps xid edgeId newPropBytes)).map st.withHistory
  | .clear xid =>
    if st.history.xact.running xid ∧ st.sessions.all (fun s => s.unrecorded.isEmpty) then some (st.cleared xid) else none

end LocationState

end PgEddy
