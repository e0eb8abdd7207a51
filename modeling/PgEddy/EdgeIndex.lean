import PgEddy.EdgeStore

/-!
# The edge tables and find_edges

The SQL tables `edge_type_src` and `edge_type_dst` index the relationships by type and one end. `find_edges` (`lib.rs`) reads
them when a type is given, and follows the adjacency chain of one end otherwise.
-/

namespace PgEddy

/-- A row of `edge_type_src`, whose `node_id` is `src_node_id`, or of `edge_type_dst`, whose `node_id` is `dst_node_id`. -/
structure EdgeTypeRow where
  typeId : Int32
  nodeId : Int64
  edgeId : Int64
  deriving DecidableEq, Repr

/-- The rows of both tables that a statement sees, in the order in which it reads them. -/
structure EdgeTables where
  edgeTypeSrc : List EdgeTypeRow
  edgeTypeDst : List EdgeTypeRow

/-- `SELECT edge_id … WHERE type_id = $1 AND src_node_id = $2`, or `dst_node_id = $2`. -/
def selectByNode (rows : List EdgeTypeRow) (tid : Int32) (nodeId : Int64) : List Int64 :=
  (rows.filter (fun row => row.typeId == tid && row.nodeId == nodeId)).map EdgeTypeRow.edgeId

/-- `SELECT edge_id … WHERE type_id = $1`. -/
def selectByType (rows : List EdgeTypeRow) (tid : Int32) : List Int64 :=
  (rows.filter (fun row => row.typeId == tid)).map EdgeTypeRow.edgeId

/-- The fallback of `find_edges`: the chain of an end, and what remains of the filters. -/
def findEdgesAdjacent (cache : LocationCache) (nodeRel edgeRel : Relation) (srcNodeId dstNodeId : Option Int64)
    (typeIdOpt : Option Int32) (node : Int64) (fuel : Nat) : Option (Except PgError (List Int64)) :=
  let dir := if srcNodeId.isSome then Direction.out else if dstNodeId.isSome then .in else .both
  (adjacencyFollow cache nodeRel edgeRel node dir typeIdOpt fuel).map (fun result => result.map (fun edges =>
    ((edges.filter (fun e => dstNodeId.all (fun d => e.targetNodeId == d))).filter
      (fun e => srcNodeId.all (fun s => e.sourceNodeId == s))).map EdgeRecord.edgeId))

/-- `find_edges`. The names of types become numbers by `ensure_rel_type`. -/
def findEdges (cache : LocationCache) (nodeRel edgeRel : Relation) (tables : EdgeTables) (ensureRelType : String → Int32)
    (srcNodeId dstNodeId : Option Int64) (relType : Option String) (fuel : Nat) : Option (Except PgError (List Int64)) :=
  let typeIdOpt := relType.map ensureRelType
  match typeIdOpt, srcNodeId with
  | some tid, some src =>
    let rows := selectByNode tables.edgeTypeSrc tid src
    match dstNodeId with
    | some dst =>
      let dstSet := selectByNode tables.edgeTypeDst tid dst
      some (.ok (rows.filter (fun eid => dstSet.contains eid)))
    | none => some (.ok rows)
  | _, _ =>
    match typeIdOpt, dstNodeId with
    | some tid, some dst => some (.ok (selectByNode tables.edgeTypeDst tid dst))
    | _, _ =>
      match srcNodeId.or dstNodeId with
      | some node => findEdgesAdjacent cache nodeRel edgeRel srcNodeId dstNodeId typeIdOpt node fuel
      | none =>
        match typeIdOpt with
        | some tid => some (.ok (selectByType tables.edgeTypeSrc tid))
        | none => some (.ok [])

end PgEddy
