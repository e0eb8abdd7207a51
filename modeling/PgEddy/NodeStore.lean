import PgEddy.Store

/-!
# The node store

`storage/node_store.rs`: node records on node pages, found by a scan or through the location cache, deleted by setting `xmax`
and updated by a delete and a new version that keeps the adjacency slot.
-/

namespace PgEddy

open ByteBuffer

/-! ## Node records -/

/-- A decoded node record. When `overflowBlkno` is not zero the properties are in that block. -/
structure NodeRecord where
  nodeId : Int64
  adjSlotIdx : Nat
  overflowBlkno : Nat
  labelIds : List Int32
  propBytes : Bytes
  deriving DecidableEq, Repr

def nodeIdOf (data : Bytes) : Int64 := i64OfLe (slice data offNodeId 8)

def adjSlotOf (data : Bytes) : Nat := leNat (slice data offAdjSlot 2)

def labelCountOf (data : Bytes) : Nat := leNat (slice data offLabelCount 1)

def propLenOf (data : Bytes) : Nat := leNat (slice data offPropInlineLen 2)

def overflowOf (data : Bytes) : Nat := leNat (slice data offPropOverflowPage 4)

def labelIdsOf (data : Bytes) (labelCount : Nat) : List Int32 :=
  (List.range labelCount).map (fun i => i32OfLe (slice data (offLabelIds + i * 4) 4))

/-- Store the label ids one behind the other, from an offset on. -/
def writeLabelIds (data : Bytes) (off : Nat) : List Int32 → Bytes
  | [] => data
  | lid :: lids => writeLabelIds (writeAt data off (i32ToLe lid)) (off + 4) lids

/-- `build_node_item_bytes_ovf`. With an overflow block the properties are not stored inline. -/
def buildNodeItemBytesOvf (xid : Xid) (nodeId : Int64) (adjSlotIdx : Nat) (labelIds : List Int32) (propBytes : Bytes)
    (overflowBlkno : Nat) : Item :=
  let data := List.replicate (nodeFixedDataSize + labelIds.length * 4 + propBytes.length) 0
  let data := writeAt data offNodeId (i64ToLe nodeId)
  let data := writeAt data offAdjSlot (leBytes 2 adjSlotIdx)
  let data := writeAt data offLabelCount (leBytes 1 labelIds.length)
  let nprop := if overflowBlkno = 0 then propBytes.length else 0
  let data := writeAt data offPropInlineLen (leBytes 2 nprop)
  let data := writeAt data offPropOverflowPage (leBytes 4 overflowBlkno)
  let data := writeLabelIds data offLabelIds labelIds
  let data := if overflowBlkno = 0 then writeAt data (offLabelIds + labelIds.length * 4) propBytes else data
  .tuple (.fresh xid) data

/-- `build_node_item_bytes`. -/
def buildNodeItemBytes (xid : Xid) (nodeId : Int64) (adjSlotIdx : Nat) (labelIds : List Int32) (propBytes : Bytes) : Item :=
  buildNodeItemBytesOvf xid nodeId adjSlotIdx labelIds propBytes 0

/-- The decoding part of `read_node_at_offset`; none when the record is malformed. -/
def decodeNode (data : Bytes) : Option NodeRecord :=
  if data.length < nodeFixedDataSize then none
  else
    let labelCount := labelCountOf data
    let propLen := propLenOf data
    let labelsEnd := offLabelIds + labelCount * 4
    if data.length < labelsEnd + propLen then none
    else some {
      nodeId := nodeIdOf data
      adjSlotIdx := adjSlotOf data
      overflowBlkno := overflowOf data
      labelIds := labelIdsOf data labelCount
      propBytes := if 0 < propLen then slice data labelsEnd propLen else [] }

/-! ## Reading records -/

/-- The `xmin` check of `read_node_at_offset`. -/
def xminVisible (be : Backend) (snapshot : Option Snapshot) (hdr : HeapTupleHeader) : Bool :=
  let notInSnapshot :=
    match snapshot with
    | none => true
    | some s => !xidInMVCCSnapshot hdr.xmin s
  if hdr.xminCommitted then notInSnapshot
  else if hdr.xminInvalid then false
  else if hdr.xmin = invalidTransactionId then false
  else if be.isCurrent hdr.xmin then true
  else if be.didCommit hdr.xmin then notInSnapshot
  else false

/-- `read_node_at_offset`. An item without a tuple header is no record: only an overflow block has one, and every scan skips
overflow blocks. -/
def readNodeAtOffset (be : Backend) (page : Page) (snapshot : Option Snapshot) (off : Nat) : Option NodeRecord :=
  match page.itemId off with
  | ⟨.normal, .tuple hdr data⟩ =>
    if xminVisible be snapshot hdr then
      if hdr.xmaxInvalid then decodeNode data else none
    else none
  | _ => none

/-- `read_overflow_block`; an overflow block holds one item, at offset 1. -/
def readOverflowBlock (rel : Relation) (blkno : Nat) : Except PgError Bytes :=
  (readBuffer rel blkno).map (fun page =>
    match (page.itemId 1).item with
    | .raw bytes => bytes
    | .tuple _ _ => [])

/-- Fetch the properties of a record from its overflow block, if it has one. -/
def resolveOverflow (rel : Relation) (r : NodeRecord) : Except PgError NodeRecord :=
  if r.overflowBlkno ≠ 0 ∧ r.propBytes = [] then
    (readOverflowBlock rel r.overflowBlkno).map (fun bytes => { r with propBytes := bytes })
  else .ok r

/-- The slow path of `find_node_by_id`: the first visible record with the id, block by block, overflow blocks skipped. -/
def scanNodeById (be : Backend) (rel : Relation) (nodeId : Int64) (snapshot : Option Snapshot) : Option NodeRecord :=
  (blocks rel).findSome? (fun (page, _) =>
    if isOverflowPage page then none
    else page.offsets.findSome? (fun off =>
      (readNodeAtOffset be page snapshot off).filter (fun rec => rec.nodeId == nodeId)))

/-- `find_node_by_id`. -/
def findNodeById (be : Backend) (cache : LocationCache) (rel : Relation) (nodeId : Int64) (snapshot : Option Snapshot) :
    Except PgError (Option NodeRecord) := do
  if let some (blkno, off) := cache nodeId then
    let page ← readBuffer rel blkno
    if let some r := readNodeAtOffset be page snapshot off then
      if r.nodeId == nodeId then
        return some (← resolveOverflow rel r)
  match scanNodeById be rel nodeId snapshot with
  | none => return none
  | some r => return some (← resolveOverflow rel r)

/-- `scan_all_node_locations`. -/
def scanAllNodeLocations (be : Backend) (rel : Relation) (snapshot : Option Snapshot) : List (Int64 × Nat × Nat) :=
  (blocks rel).flatMap (fun (page, blkno) =>
    if isOverflowPage page then []
    else page.offsets.filterMap (fun off =>
      (readNodeAtOffset be page snapshot off).map (fun rec => (rec.nodeId, blkno, off))))

/-- `count_nodes`: block by block, offset by offset. -/
def countNodes (be : Backend) (rel : Relation) (snapshot : Option Snapshot) : Nat :=
  (blocks rel).foldl (fun count (page, _) =>
    if isOverflowPage page then count
    else page.offsets.foldl (fun count off =>
      if (readNodeAtOffset be page snapshot off).isSome then count + 1 else count) count) 0

/-! ## Sequential scan -/

/-- `NodeScanState`, without the relation and the snapshot, which do not change during a scan. -/
structure NodeScanState where
  currentBlk : Nat
  currentOff : Nat
  nblocks : Nat
  deriving DecidableEq, Repr

/-- `NodeScanState::begin`. -/
def NodeScanState.begin (rel : Relation) : NodeScanState := { currentBlk := 0, currentOff := 1, nblocks := rel.length }

/-- The loop of `NodeScanState::next`; the fuel counts the blocks left. -/
def NodeScanState.nextLoop (be : Backend) (rel : Relation) (snapshot : Option Snapshot) :
    Nat → NodeScanState → Except PgError (Option NodeRecord × NodeScanState)
  | 0, st => .ok (none, st)
  | fuel + 1, st => do
    let page ← readBuffer rel st.currentBlk
    let nextBlk : NodeScanState := { st with currentBlk := st.currentBlk + 1, currentOff := 1 }
    if isOverflowPage page then nextLoop be rel snapshot fuel nextBlk
    else
      let found := (page.offsets.drop (st.currentOff - 1)).findSome? (fun off =>
        (readNodeAtOffset be page snapshot off).map (fun r => (r, off)))
      match found with
      | some (r, off) => return (some (← resolveOverflow rel r), { st with currentOff := off + 1 })
      | none => nextLoop be rel snapshot fuel nextBlk

/-- `NodeScanState::next`: the next visible node, or none when the blocks are exhausted. -/
def NodeScanState.next (be : Backend) (rel : Relation) (snapshot : Option Snapshot) (st : NodeScanState) :
    Except PgError (Option NodeRecord × NodeScanState) :=
  st.nextLoop be rel snapshot (st.nblocks - st.currentBlk)

/-- The loop `while let Some(rec) = state.next()` of the callers; the fuel bounds its rounds. -/
def NodeScanState.collect (be : Backend) (rel : Relation) (snapshot : Option Snapshot) :
    Nat → NodeScanState → Except PgError (List NodeRecord)
  | 0, _ => .ok []
  | fuel + 1, st => do
    match ← st.next be rel snapshot with
    | (none, _) => return []
    | (some r, st') => return r :: (← collect be rel snapshot fuel st')

/-! ## Locations -/

/-- The test of `find_node_location` at one offset: an LP_NORMAL record with the id and no deleter. Its adjacency slot. -/
def locationAt (page : Page) (off : Nat) (nodeId : Int64) : Option Nat :=
  match page.itemId off with
  | ⟨.normal, .tuple hdr data⟩ =>
    if data.length < nodeFixedDataSize then none
    else if nodeIdOf data = nodeId ∧ hdr.xmaxInvalid then some (adjSlotOf data)
    else none
  | _ => none

/-- The slow path of `find_node_location`. -/
def scanNodeLocation (rel : Relation) (nodeId : Int64) : Option (Nat × Nat × Nat) :=
  (blocks rel).findSome? (fun (page, blkno) =>
    if isOverflowPage page then none
    else page.offsets.findSome? (fun off =>
      (locationAt page off nodeId).map (fun adj => (blkno, off, adj))))

/-- `find_node_location`: block, offset and stored adjacency slot of the node. -/
def findNodeLocation (cache : LocationCache) (rel : Relation) (nodeId : Int64) :
    Except PgError (Option (Nat × Nat × Nat)) :=
  match cache nodeId with
  | none => .ok (scanNodeLocation rel nodeId)
  | some (blkno, cachedOff) =>
    match rel[blkno]? with
    | none => .error (.couldNotReadBlock blkno)
    | some page =>
      match locationAt page cachedOff nodeId with
      | some adj => .ok (some (blkno, cachedOff, adj))
      | none => .ok (scanNodeLocation rel nodeId)

/-! ## Room for a record -/

/-- `init_node_page`. -/
def initNodePage : Page := pageInit maxNodeSlotsPerPage

/-- The backward scan of `find_or_extend_page` over the first `n` blocks: overflow blocks are skipped, and the first node page
met is taken if the item fits and ends the scan if not. -/
def findSpace (rel : Relation) (itemSize : Nat) : Nat → Option Nat
  | 0 => none
  | n + 1 =>
    match rel[n]? with
    | none => none
    | some page =>
      if isOverflowPage page then findSpace rel itemSize n
      else if page.fits itemSize then some n
      else none

/-- `find_or_extend_page`. -/
def findOrExtendPage (rel : Relation) (itemSize : Nat) : Except PgError (Relation × Nat) :=
  match findSpace rel itemSize rel.length with
  | some blk => .ok (rel, blk)
  | none => extendRelation rel initNodePage

/-- Place an item on a block with `PageAddItemExtended` and patch the copy in the page: the relation, the offset, or none when
PostgreSQL refuses the item. -/
def addNodeItem (pg : PgSys) (rel : Relation) (blkno : Nat) (item : Item) (patch : Nat → Item → Item) :
    Option (Relation × Nat) :=
  match rel[blkno]? with
  | none => none
  | some page =>
    match pg.pageAddItem page item none false with
    | none => none
    | some (off, page') => some (modifyBlock rel blkno (fun _ => page'.modifyItem off (patch off)), off)

/-- The patch `ItemPointerSet(t_ctid, blkno, off)`. -/
def Item.setCtid (blkno off : Nat) (it : Item) : Item := it.mapHdr (fun h => { h with ctid := some (blkno, off) })

/-- The patch of `insert_node`: the slot of the record is its offset less one, for good. -/
def Item.setAdjSlot (adjSlotIdx : Nat) (it : Item) : Item :=
  it.mapData (fun data => writeAt data offAdjSlot (leBytes 2 adjSlotIdx))

/-! ## Insert -/

/-- `write_overflow_block` and the item `insert_node` puts there: the overflow block with its image, or none when the properties
are stored inline. -/
def writeOverflow (pg : PgSys) (rel : Relation) (propBytes : Bytes) : Relation × Except PgError (Option (Nat × Page)) :=
  if propBytes.length ≤ propInlineMax then (rel, .ok none)
  else
    match extendRelation rel (pageInit 0) with
    | .error e => (rel, .error e)
    | .ok (rel', ovfBlk) =>
      match pg.pageAddItem (pageInit 0) (.raw propBytes) none false with
      | none => (rel', .error .overflowAddFailed)
      | some (_, image) => (modifyBlock rel' ovfBlk (fun _ => image), .ok (some (ovfBlk, image)))

/-- `insert_node`: the block and the offset of the new record. -/
def insertNode (pg : PgSys) (xid : Xid) (s : Store) (nodeId : Int64) (labelIds : List Int32) (propBytes : Bytes) :
    Outcome (Nat × Nat) :=
  if maxLabelsPerNode < labelIds.length then (s, .error (.tooManyLabels labelIds.length))
  else
    let inlineForSize := if propInlineMax < propBytes.length then [] else propBytes
    let itemSize := (buildNodeItemBytesOvf xid nodeId 0 labelIds inlineForSize 0).len
    match findOrExtendPage s.nodes itemSize with
    | .error e => (s, .error e)
    | .ok (nodes, blkno) =>
      match writeOverflow pg nodes propBytes with
      | (nodes, .error e) => ({ s with nodes := nodes }, .error e)
      | (nodes, .ok ovf) =>
        let item :=
          match ovf with
          | some (ovfBlk, _) => buildNodeItemBytesOvf xid nodeId 0 labelIds [] ovfBlk
          | none => buildNodeItemBytesOvf xid nodeId 0 labelIds propBytes 0
        match addNodeItem pg nodes blkno item (fun off it => (it.setAdjSlot (off - 1)).setCtid blkno off) with
        | none => ({ s with nodes := nodes }, .error (.nodeAddFailed blkno))
        | some (nodes, off) =>
          (({ s with nodes := nodes }).log (.nodeInsert blkno off item ovf), .ok (blkno, off))

/-! ## Delete and update -/

/-- Set the deleter of the record at a location. -/
def setXmaxAt (rel : Relation) (blkno off : Nat) (xmax : Xid) : Relation :=
  modifyBlock rel blkno (fun page => page.modifyItem off (Item.mapHdr (·.setXmax xmax)))

/-- The step of `delete_node_by_id` under the exclusive lock. -/
def deleteNodeAt (xid : Xid) (s : Store) (blkno off : Nat) : Store :=
  ({ s with nodes := setXmaxAt s.nodes blkno off xid }).log (.nodeDelete blkno off xid)

/-- `delete_node_by_id`. -/
def deleteNodeById (xid : Xid) (cache : LocationCache) (s : Store) (nodeId : Int64) : Outcome Bool :=
  match findNodeLocation cache s.nodes nodeId with
  | .error e => (s, .error e)
  | .ok none => (s, .ok false)
  | .ok (some (blkno, off, _)) => (deleteNodeAt xid s blkno off, .ok true)

/-- The cross-page path of `update_node`: delete the old record, then insert the new one on whatever page has room. -/
def updateCrossPage (pg : PgSys) (xid : Xid) (s : Store) (blkno oldOff : Nat) (newItem : Item) : Outcome Bool :=
  let s := deleteNodeAt xid s blkno oldOff
  match findOrExtendPage s.nodes newItem.len with
  | .error e => (s, .error e)
  | .ok (nodes, newBlkno) =>
    match addNodeItem pg nodes newBlkno newItem (Item.setCtid newBlkno) with
    | none => ({ s with nodes := nodes }, .error .crossPageAddFailed)
    | some (nodes, newOff) => (({ s with nodes := nodes }).log (.nodeInsert newBlkno newOff newItem none), .ok true)

/-- The same-page path of `update_node`. -/
def updateSamePage (pg : PgSys) (xid : Xid) (s : Store) (blkno oldOff : Nat) (newItem : Item) : Outcome Bool :=
  let nodes := setXmaxAt s.nodes blkno oldOff xid
  match addNodeItem pg nodes blkno newItem (Item.setCtid blkno) with
  | none => ({ s with nodes := nodes }, .error (.updateAddFailed blkno))
  | some (nodes, newOff) =>
    ((({ s with nodes := nodes }).log (.nodeDelete blkno oldOff xid)).log (.nodeInsert blkno newOff newItem none), .ok true)

/-- The step of `update_node` under the exclusive lock: the new version goes on the old page if it fits there. -/
def updateNodeAt (pg : PgSys) (xid : Xid) (s : Store) (nodeId : Int64) (newLabelIds : List Int32) (newPropBytes : Bytes)
    (blkno oldOff adjSlotIdx : Nat) : Outcome Bool :=
  let newItem := buildNodeItemBytes xid nodeId adjSlotIdx newLabelIds newPropBytes
  match s.nodes[blkno]? with
  | none => (s, .error (.couldNotReadBlock blkno))
  | some page =>
    if page.fits newItem.len then updateSamePage pg xid s blkno oldOff newItem
    else updateCrossPage pg xid s blkno oldOff newItem

/-- `update_node`. -/
def updateNode (pg : PgSys) (xid : Xid) (cache : LocationCache) (s : Store) (nodeId : Int64) (newLabelIds : List Int32)
    (newPropBytes : Bytes) : Outcome Bool :=
  if maxLabelsPerNode < newLabelIds.length then (s, .error (.tooManyLabels newLabelIds.length))
  else if propInlineMax < newPropBytes.length then (s, .error (.updateTooLarge newPropBytes.length))
  else
    match findNodeLocation cache s.nodes nodeId with
    | .error e => (s, .error e)
    | .ok none => (s, .ok false)
    | .ok (some (blkno, oldOff, adjSlotIdx)) =>
      updateNodeAt pg xid s nodeId newLabelIds newPropBytes blkno oldOff adjSlotIdx

end PgEddy
