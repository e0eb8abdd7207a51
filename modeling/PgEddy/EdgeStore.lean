import PgEddy.NodeStore

/-!
# The edge store

`storage/edge_store.rs`: edge records on edge pages, which have no special area. Every edge is in two singly linked chains, the
out-chain of its source and the in-chain of its target, whose heads are in the adjacency headers of the node pages. New edges
go to the head of both chains; a deleted edge stays in its chains and is skipped. Slot 0 ends a chain.
-/

namespace PgEddy

open ByteBuffer

/-! ## Edge records -/

/-- A decoded edge record, with its location and the next pointers of its two chains. -/
structure EdgeRecord where
  edgeId : Int64
  relTypeId : Int32
  sourceNodeId : Int64
  targetNodeId : Int64
  propBytes : Bytes
  blockNum : Nat
  offsetNum : Nat
  nextOutPage : Nat
  nextOutSlot : Nat
  nextInPage : Nat
  nextInSlot : Nat
  deriving DecidableEq, Repr

/-- `Direction`. -/
inductive Direction where
  | out | in | both
  deriving DecidableEq, Repr

def edgeIdOf (data : Bytes) : Int64 := i64OfLe (slice data offEdgeRelId 8)

def relTypeIdOf (data : Bytes) : Int32 := i32OfLe (slice data offEdgeRelTypeId 4)

def sourceOf (data : Bytes) : Int64 := i64OfLe (slice data offEdgeSourceNodeId 8)

def targetOf (data : Bytes) : Int64 := i64OfLe (slice data offEdgeTargetNodeId 8)

/-- The next pointer of a chain: the page and the slot stored in the record for the out-chain or the in-chain. -/
def nextOf (data : Bytes) (isOutChain : Bool) : Nat × Nat :=
  if isOutChain then (leNat (slice data offEdgeNextOutPage 4), leNat (slice data offEdgeNextOutSlot 2))
  else (leNat (slice data offEdgeNextInPage 4), leNat (slice data offEdgeNextInSlot 2))

def edgePropLenOf (data : Bytes) : Nat := leNat (slice data offEdgePropInlineLen 2)

/-- `decode_edge_record`; none when the data is too short. -/
def decodeEdgeRecord (data : Bytes) (blkno off : Nat) : Option EdgeRecord :=
  if data.length < edgeFixedDataSize then none
  else
    let propLen := edgePropLenOf data
    if data.length < edgeFixedDataSize + propLen then none
    else some {
      edgeId := edgeIdOf data
      relTypeId := relTypeIdOf data
      sourceNodeId := sourceOf data
      targetNodeId := targetOf data
      propBytes := slice data offEdgePropData propLen
      blockNum := blkno
      offsetNum := off
      nextOutPage := (nextOf data true).1
      nextOutSlot := (nextOf data true).2
      nextInPage := (nextOf data false).1
      nextInSlot := (nextOf data false).2 }

/-- `build_edge_item_bytes`: room for `PROP_INLINE_MAX` bytes of properties is always reserved. -/
def buildEdgeItemBytes (xid : Xid) (edgeId : Int64) (relTypeId : Int32) (sourceNodeId targetNodeId : Int64)
    (nextOutPg nextOutSl nextInPg nextInSl : Nat) (propBytes : Bytes) : Item :=
  let propReserved := max propInlineMax propBytes.length
  let data := List.replicate (edgeFixedDataSize + propReserved) 0
  let data := writeAt data offEdgeRelId (i64ToLe edgeId)
  let data := writeAt data offEdgeRelTypeId (i32ToLe relTypeId)
  let data := writeAt data offEdgeSourceNodeId (i64ToLe sourceNodeId)
  let data := writeAt data offEdgeTargetNodeId (i64ToLe targetNodeId)
  let data := writeAt data offEdgeNextOutPage (leBytes 4 nextOutPg)
  let data := writeAt data offEdgeNextOutSlot (leBytes 2 nextOutSl)
  let data := writeAt data offEdgeNextInPage (leBytes 4 nextInPg)
  let data := writeAt data offEdgeNextInSlot (leBytes 2 nextInSl)
  let data := writeAt data offEdgePropInlineLen (leBytes 2 propBytes.length)
  let data := writeAt data offEdgePropOverflowPage (leBytes 4 0)
  let data := writeAt data offEdgePropData propBytes
  .tuple (.fresh xid) data

/-! ## Reading records -/

/-- The visibility of `read_edge_at_offset`: the inserter is this transaction or has committed, and there is no deleter. -/
def edgeVisible (be : Backend) (hdr : HeapTupleHeader) : Bool :=
  if hdr.xmin = invalidTransactionId then false
  else
    let xminVisible :=
      if hdr.xminCommitted then true
      else if hdr.xminInvalid then false
      else be.isCurrent hdr.xmin || be.didCommit hdr.xmin
    xminVisible && hdr.xmaxInvalid

/-- `read_edge_at_offset`. -/
def readEdgeAtOffset (be : Backend) (page : Page) (blkno off : Nat) : Option EdgeRecord :=
  match page.itemId off with
  | ⟨.normal, .tuple hdr data⟩ =>
    if data.length < edgeFixedDataSize then none
    else if edgeVisible be hdr then decodeEdgeRecord data blkno off
    else none
  | _ => none

/-- `scan_all_edges`: every visible edge in physical order. -/
def scanAllEdges (be : Backend) (rel : Relation) : List EdgeRecord :=
  (blocks rel).flatMap (fun (page, blkno) => page.offsets.filterMap (readEdgeAtOffset be page blkno))

/-- `find_edge_by_id`: the first visible edge with the id. -/
def findEdgeById (be : Backend) (rel : Relation) (edgeId : Int64) : Option EdgeRecord :=
  (blocks rel).findSome? (fun (page, blkno) =>
    page.offsets.findSome? (fun off =>
      (readEdgeAtOffset be page blkno off).filter (fun rec => rec.edgeId == edgeId)))

/-- `count_edges`. -/
def countEdges (be : Backend) (rel : Relation) : Nat :=
  (blocks rel).foldl (fun count (page, blkno) =>
    page.offsets.foldl (fun count off =>
      if (readEdgeAtOffset be page blkno off).isSome then count + 1 else count) count) 0

/-! ## Adjacency -/

/-- What one slot of a chain gives: the end of the walk (a broken chain), or the next pointer and the record if it is alive. -/
inductive ChainSlot where
  | stop
  | next (pg sl : Nat) (record : Option EdgeRecord)
  deriving DecidableEq, Repr

/-- One slot read by `follow_chain`: the next pointer of any used record, and the record itself when it is LP_NORMAL and has no
deleter. -/
def readChainSlot (page : Page) (pg off : Nat) (isOutChain : Bool) : ChainSlot :=
  match page.itemId off with
  | ⟨flags, .tuple hdr data⟩ =>
    if flags ≠ .normal ∧ flags ≠ .dead then .stop
    else if data.length < edgeFixedDataSize then .stop
    else
      let (nextPg, nextSl) := nextOf data isOutChain
      .next nextPg nextSl (if hdr.xmaxInvalid ∧ flags = .normal then decodeEdgeRecord data pg off else none)
  | ⟨_, .raw _⟩ => .stop

/-- `passes_filter`. -/
def passesFilter (relTypeFilter : Option Int32) (rec : EdgeRecord) : Bool :=
  match relTypeFilter with
  | none => true
  | some t => t == rec.relTypeId

/-- The inner loop of `follow_chain`, on one page whose lock is held: where the chain leaves the page and the records so far. -/
def followPage (page : Page) (currentPg : Nat) (isOutChain : Bool) (relTypeFilter : Option Int32) :
    Nat → Nat → List EdgeRecord → Option (Nat × Nat × List EdgeRecord)
  | 0, _, _ => none
  | fuel + 1, headSl, out =>
    if headSl = 0 then some (currentPg, 0, out)
    else
      match readChainSlot page currentPg headSl isOutChain with
      | .stop => some (currentPg, 0, out)
      | .next nextPg nextSl record =>
        let out := out ++ (record.filter (passesFilter relTypeFilter)).toList
        if nextSl = 0 ∨ nextPg ≠ currentPg then some (nextPg, nextSl, out)
        else followPage page currentPg isOutChain relTypeFilter fuel nextSl out

/-- `follow_chain`: the records of one chain, appended to `out`. None when the fuel, a bound on the rounds of either loop, ends
before the walk does. -/
def followChain (rel : Relation) (isOutChain : Bool) (relTypeFilter : Option Int32) :
    Nat → Nat → Nat → List EdgeRecord → Option (Except PgError (List EdgeRecord))
  | fuel, headPg, headSl, out =>
    if headSl = 0 then some (.ok out)
    else
      match fuel with
      | 0 => none
      | fuel + 1 =>
        match readBuffer rel headPg with
        | .error e => some (.error e)
        | .ok page =>
          match followPage page headPg isOutChain relTypeFilter (fuel + 1) headSl out with
          | none => none
          | some (nextPg, nextSl, out) => followChain rel isOutChain relTypeFilter fuel nextPg nextSl out

/-- `results.retain(|e| seen.insert(e.edge_id))`: the first record of each edge id. -/
def retainFirst : List EdgeRecord → List Int64 → List EdgeRecord
  | [], _ => []
  | e :: es, seen => if seen.contains e.edgeId then retainFirst es seen else e :: retainFirst es (e.edgeId :: seen)

/-- The walks of `adjacency_follow` over the chains of one header: the out-chain, then the in-chain. -/
def followHeader (edgeRel : Relation) (adj : NodeAdjHeader) (direction : Direction) (relTypeFilter : Option Int32)
    (fuel : Nat) : Option (Except PgError (List EdgeRecord)) :=
  let outs :=
    if direction = .out ∨ direction = .both then
      followChain edgeRel true relTypeFilter fuel adj.outHeadPg adj.outHeadSl []
    else some (.ok [])
  match outs with
  | none => none
  | some (.error e) => some (.error e)
  | some (.ok results) =>
    let all :=
      if direction = .in ∨ direction = .both then
        followChain edgeRel false relTypeFilter fuel adj.inHeadPg adj.inHeadSl results
      else some (.ok results)
    if direction = .both then all.map (fun r => r.map (fun es => retainFirst es [])) else all

/-- `adjacency_follow`. -/
def adjacencyFollow (cache : LocationCache) (nodeRel edgeRel : Relation) (nodeId : Int64) (direction : Direction)
    (relTypeFilter : Option Int32) (fuel : Nat) : Option (Except PgError (List EdgeRecord)) :=
  match findNodeLocation cache nodeRel nodeId with
  | .error e => some (.error e)
  | .ok none => some (.ok [])
  | .ok (some (nodeBlk, _, adjIdx)) =>
    match readBuffer nodeRel nodeBlk with
    | .error e => some (.error e)
    | .ok page =>
      match readAdjHeader page adjIdx with
      | none => some (.error .outOfPage)
      | some adj => followHeader edgeRel adj direction relTypeFilter fuel

/-! ## Insert -/

/-- `init_edge_page`. -/
def initEdgePage : Page := pageInit 0

/-- `find_or_extend_edge_page`: only the last block is tried. -/
def findOrExtendEdgePage (rel : Relation) (itemSize : Nat) : Except PgError (Relation × Nat) :=
  match rel.getLast? with
  | none => extendRelation rel initEdgePage
  | some page => if page.fits itemSize then .ok (rel, rel.length - 1) else extendRelation rel initEdgePage

/-- The adjacency header with the new edge at the head of its out-chain. Degrees are 32 bits and wrap. -/
def NodeAdjHeader.pushOut (adj : NodeAdjHeader) (edgeBlk edgeOff : Nat) : NodeAdjHeader :=
  { adj with outHeadPg := edgeBlk, outHeadSl := edgeOff, outDegree := (adj.outDegree + 1) % 2 ^ 32 }

/-- The adjacency header with the new edge at the head of its in-chain. -/
def NodeAdjHeader.pushIn (adj : NodeAdjHeader) (edgeBlk edgeOff : Nat) : NodeAdjHeader :=
  { adj with inHeadPg := edgeBlk, inHeadSl := edgeOff, inDegree := (adj.inDegree + 1) % 2 ^ 32 }

/-- `write_adj_header` on a block of the node relation. -/
def writeAdjHeaderAt (rel : Relation) (blkno idx : Nat) (hdr : NodeAdjHeader) : Relation :=
  modifyBlock rel blkno (fun page => writeAdjHeader page idx hdr)

/-- The part of `insert_edge` after both endpoints are located, at (block, adjacency slot), and their headers read. -/
def linkEdge (pg : PgSys) (xid : Xid) (s : Store) (edgeId : Int64) (relTypeId : Int32) (srcNodeId tgtNodeId : Int64)
    (propBytes : Bytes) (srcBlk srcAdjIdx tgtBlk tgtAdjIdx : Nat) (srcAdj tgtAdj : NodeAdjHeader) : Outcome Unit :=
  let selfLoop := srcBlk = tgtBlk ∧ srcAdjIdx = tgtAdjIdx
  let edgeItem := buildEdgeItemBytes xid edgeId relTypeId srcNodeId tgtNodeId srcAdj.outHeadPg srcAdj.outHeadSl
    tgtAdj.inHeadPg tgtAdj.inHeadSl propBytes
  match findOrExtendEdgePage s.edges edgeItem.len with
  | .error e => (s, .error e)
  | .ok (edges, edgeBlk) =>
    match addNodeItem pg edges edgeBlk edgeItem (Item.setCtid edgeBlk) with
    | none => ({ s with edges := edges }, .error (.edgeAddFailed edgeBlk))
    | some (edges, edgeOff) =>
      let newSrcAdj := srcAdj.pushOut edgeBlk edgeOff
      let newTgtAdj := (if selfLoop then newSrcAdj else tgtAdj).pushIn edgeBlk edgeOff
      let nodes := writeAdjHeaderAt s.nodes srcBlk srcAdjIdx newSrcAdj
      let nodes := writeAdjHeaderAt nodes tgtBlk tgtAdjIdx newTgtAdj
      let s : Store := { s with nodes := nodes, edges := edges }
      let s := s.log (.edgeInsert edgeBlk edgeOff edgeItem)
      let s := s.log (.adjUpdate srcBlk srcAdjIdx (if selfLoop then newTgtAdj else newSrcAdj))
      let s := if selfLoop then s else s.log (.adjUpdate tgtBlk tgtAdjIdx newTgtAdj)
      (s, .ok ())

/-- `insert_edge`. -/
def insertEdge (pg : PgSys) (xid : Xid) (cache : LocationCache) (s : Store) (edgeId : Int64) (relTypeId : Int32)
    (srcNodeId tgtNodeId : Int64) (propBytes : Bytes) : Outcome Unit :=
  if propInlineMax < propBytes.length then (s, .error (.edgeTooLarge propBytes.length))
  else
    match findNodeLocation cache s.nodes srcNodeId with
    | .error e => (s, .error e)
    | .ok none => (s, .error (.sourceNotFound srcNodeId))
    | .ok (some (srcBlk, _, srcAdjIdx)) =>
      match findNodeLocation cache s.nodes tgtNodeId with
      | .error e => (s, .error e)
      | .ok none => (s, .error (.targetNotFound tgtNodeId))
      | .ok (some (tgtBlk, _, tgtAdjIdx)) =>
        match readBuffer s.nodes srcBlk, readBuffer s.nodes tgtBlk with
        | .ok srcPage, .ok tgtPage =>
          match readAdjHeader srcPage srcAdjIdx, readAdjHeader tgtPage tgtAdjIdx with
          | some srcAdj, some tgtAdj =>
            linkEdge pg xid s edgeId relTypeId srcNodeId tgtNodeId propBytes srcBlk srcAdjIdx tgtBlk tgtAdjIdx srcAdj tgtAdj
          | _, _ => (s, .error .outOfPage)
        | .error e, _ => (s, .error e)
        | _, .error e => (s, .error e)

/-! ## Delete and update -/

/-- The test of `delete_edge` at one offset: an LP_NORMAL record with the id and no deleter. -/
def isLiveEdgeAt (page : Page) (edgeId : Int64) (off : Nat) : Bool :=
  match page.itemId off with
  | ⟨.normal, .tuple hdr data⟩ => edgeFixedDataSize ≤ data.length && edgeIdOf data == edgeId && hdr.xmaxInvalid
  | _ => false

/-- The location `delete_edge` finds. -/
def findLiveEdge (rel : Relation) (edgeId : Int64) : Option (Nat × Nat) :=
  (blocks rel).findSome? (fun (page, blkno) =>
    (page.offsets.find? (isLiveEdgeAt page edgeId)).map (fun off => (blkno, off)))

/-- `delete_edge`. -/
def deleteEdge (xid : Xid) (s : Store) (edgeId : Int64) : Outcome Bool :=
  match findLiveEdge s.edges edgeId with
  | none => (s, .ok false)
  | some (blkno, off) =>
    (({ s with edges := setXmaxAt s.edges blkno off xid }).log (.edgeDelete blkno off xid), .ok true)

/-- The location `update_edge_props` finds: the first visible edge with the id. -/
def findVisibleEdge (be : Backend) (rel : Relation) (edgeId : Int64) : Option (Nat × Nat) :=
  (findEdgeById be rel edgeId).map (fun rec => (rec.blockNum, rec.offsetNum))

/-- The rewriting of the data portion of a record: length field, then the reserved area zeroed, then the new properties. -/
def writeEdgeProps (newPropBytes data : Bytes) : Bytes :=
  let propAreaLen := data.length - edgeFixedDataSize
  let data := writeAt data offEdgePropInlineLen (leBytes 2 newPropBytes.length)
  let data := writeAt data offEdgePropData (List.replicate propAreaLen 0)
  writeAt data offEdgePropData newPropBytes

/-- `update_edge_props`: the record is rewritten in place, and nothing is logged. -/
def updateEdgeProps (be : Backend) (s : Store) (edgeId : Int64) (newPropBytes : Bytes) : Outcome Bool :=
  if propInlineMax < newPropBytes.length then (s, .error (.edgeUpdateTooLarge newPropBytes.length))
  else
    match findVisibleEdge be s.edges edgeId with
    | none => (s, .ok false)
    | some (blkno, off) =>
      match s.edges[blkno]? with
      | none => (s, .error (.couldNotReadBlock blkno))
      | some page =>
        let availablePropSpace := (page.itemId off).item.len - hdrSize - edgeFixedDataSize
        if availablePropSpace < newPropBytes.length then
          (s, .error (.edgeUpdateNoRoom newPropBytes.length availablePropSpace))
        else
          ({ s with edges := modifyBlock s.edges blkno (fun p =>
              p.modifyItem off (Item.mapData (writeEdgeProps newPropBytes))) }, .ok true)

end PgEddy
