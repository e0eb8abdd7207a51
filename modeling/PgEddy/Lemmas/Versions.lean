import PgEddy.NodeStore
import PgEddy.Lemmas.Pages
import PgEddy.Lemmas.Records

/-!
# Node relations, version by version

A node relation is seen as a map from locations (block and offset) to the node versions there, and from adjacency slots (block
and slot) to headers. The scans of the node store are scans of this map; each change the code makes to a relation is a change
of the map at one place.
-/

namespace PgEddy

open ByteBuffer PagedStore

/-- A node record as a scan meets it: the header of the tuple and the data portion. -/
structure NodeVersion where
  hdr : HeapTupleHeader
  data : Bytes
  deriving DecidableEq, Repr

namespace NodeVersion

/-- The node a version is of. -/
def nodeId (v : NodeVersion) : Int64 := nodeIdOf v.data

/-- The adjacency slot a version stores. -/
def slot (v : NodeVersion) : Nat := adjSlotOf v.data

/-- No deleter is set: the version that `find_node_location` looks for. -/
def unmarked (v : NodeVersion) : Bool := v.hdr.xmaxInvalid

/-- The version with a deleter. -/
def setXmax (v : NodeVersion) (xmax : Xid) : NodeVersion := { v with hdr := v.hdr.setXmax xmax }

/-- What `read_node_at_offset` makes of a version. -/
def read (be : Backend) (snapshot : Option Snapshot) (v : NodeVersion) : Option NodeRecord :=
  if xminVisible be snapshot v.hdr then
    if v.hdr.xmaxInvalid then decodeNode v.data else none
  else none

@[simp] theorem nodeId_setXmax (v : NodeVersion) (xmax : Xid) : (v.setXmax xmax).nodeId = v.nodeId := rfl

@[simp] theorem slot_setXmax (v : NodeVersion) (xmax : Xid) : (v.setXmax xmax).slot = v.slot := rfl

@[simp] theorem unmarked_setXmax (v : NodeVersion) (xmax : Xid) : (v.setXmax xmax).unmarked = false := rfl

@[simp] theorem data_setXmax (v : NodeVersion) (xmax : Xid) : (v.setXmax xmax).data = v.data := rfl

end NodeVersion

theorem NodeVersion.slot_lt (v : NodeVersion) : v.slot < 65536 := by
  have h := leNat_lt (slice v.data offAdjSlot 2)
  have hl : (slice v.data offAdjSlot 2).length ≤ 2 := by simp only [slice, List.length_take]; omega
  exact Nat.lt_of_lt_of_le h (Nat.pow_le_pow_right (by omega) hl)

/-- The version at an offset of a page. -/
def Page.versionAt (p : Page) (off : Nat) : Option NodeVersion :=
  match p.itemId off with
  | ⟨.normal, .tuple hdr data⟩ => if data.length < nodeFixedDataSize then none else some ⟨hdr, data⟩
  | _ => none

/-- The version at a location, block and offset. -/
def versionAt (rel : Relation) (loc : Nat × Nat) : Option NodeVersion := rel[loc.1]?.bind (fun p => p.versionAt loc.2)

/-- The header of an adjacency slot, block and slot. -/
def headerAt (rel : Relation) (loc : Nat × Nat) : Option NodeAdjHeader := rel[loc.1]?.bind (fun p => readAdjHeader p loc.2)

/-! ## Node pages and overflow blocks -/

/-- A node page: a special area of `MAX_NODE_SLOTS_PER_PAGE` headers. -/
structure Page.IsNodePage (p : Page) : Prop where
  used : p.AllUsed
  headers : p.special.length = maxNodeSlotsPerPage
  upper : p.pdUpper ≤ blcksz

/-- An overflow block: no special area and no tuple. -/
structure Page.IsOverflowBlock (p : Page) : Prop where
  used : p.AllUsed
  headers : p.special = []
  raw : ∀ i ∈ p.linp, ∃ bytes, i.item = .raw bytes

/-- Every block of a node relation is a node page or an overflow block. -/
def NodePages (rel : Relation) : Prop := ∀ p ∈ rel, p.IsNodePage ∨ p.IsOverflowBlock

theorem Page.IsNodePage.not_overflow {p : Page} (h : p.IsNodePage) : isOverflowPage p = false := by
  simp [isOverflowPage, Page.pdSpecial, h.headers, blcksz, adjHeaderBytes, maxNodeSlotsPerPage]

theorem Page.IsOverflowBlock.overflow {p : Page} (h : p.IsOverflowBlock) : isOverflowPage p = true := by
  simp [isOverflowPage, Page.pdSpecial, h.headers, blcksz, pdNodeSpecialOffset, pdNodeSpecialSize, adjHeaderBytes,
    maxNodeSlotsPerPage]

theorem NodePages.isNodePage {rel : Relation} (h : NodePages rel) {b : Nat} {p : Page} (hp : rel[b]? = some p)
    (hn : isOverflowPage p = false) : p.IsNodePage := by
  rcases h p (List.mem_of_getElem? hp) with hp' | hp'
  · exact hp'
  · rw [hp'.overflow] at hn
    cases hn

theorem Page.IsOverflowBlock.versionAt_eq_none {p : Page} (h : p.IsOverflowBlock) (off : Nat) : p.versionAt off = none := by
  simp only [Page.versionAt]
  split
  · next hdr data hi =>
    have hu : (p.itemId off).lpFlags ≠ .unused := by simp [hi]
    obtain ⟨h1, h2⟩ := Page.offset_of_used hu
    obtain ⟨bytes, hb⟩ := h.raw _ (Page.itemId_mem h1 h2)
    rw [hi] at hb
    cases hb
  · rfl

/-- A version is at an offset of the page. -/
theorem Page.offset_of_versionAt {p : Page} {off : Nat} {v : NodeVersion} (h : p.versionAt off = some v) :
    1 ≤ off ∧ off ≤ p.maxOffset := by
  apply Page.offset_of_used
  intro hu
  simp only [Page.versionAt] at h
  split at h
  · next hi => simp [hi] at hu
  · cases h

theorem Page.length_of_versionAt {p : Page} {off : Nat} {v : NodeVersion} (h : p.versionAt off = some v) :
    nodeFixedDataSize ≤ v.data.length := by
  simp only [Page.versionAt] at h
  split at h
  · split at h
    · cases h
    · next hl => cases h; exact Nat.le_of_not_lt hl
  · cases h

theorem versionAt_eq_some {rel : Relation} {loc : Nat × Nat} {v : NodeVersion} :
    versionAt rel loc = some v ↔ ∃ p, rel[loc.1]? = some p ∧ p.versionAt loc.2 = some v := Option.bind_eq_some_iff

theorem headerAt_eq_some {rel : Relation} {loc : Nat × Nat} {hdr : NodeAdjHeader} :
    headerAt rel loc = some hdr ↔ ∃ p, rel[loc.1]? = some p ∧ readAdjHeader p loc.2 = some hdr := Option.bind_eq_some_iff

theorem NodePages.isNodePage_of_versionAt {rel : Relation} (h : NodePages rel) {b off : Nat} {p : Page} {v : NodeVersion}
    (hp : rel[b]? = some p) (hv : p.versionAt off = some v) : p.IsNodePage := by
  rcases h p (List.mem_of_getElem? hp) with hp' | hp'
  · exact hp'
  · rw [hp'.versionAt_eq_none] at hv
    cases hv

/-! ## The scans -/

/-- The offsets a scan of the node relation looks at. -/
def nodeSize (p : Page) : Nat := if isOverflowPage p then 0 else p.maxOffset

/-- The version a scan of the node relation meets, with its location. -/
def nodeRead (p : Page) (b off : Nat) : Option ((Nat × Nat) × NodeVersion) := (p.versionAt off).map (fun v => ((b, off), v))

/-- All versions of a node relation with their locations, in physical order. -/
def versions (rel : Relation) : List ((Nat × Nat) × NodeVersion) := scan nodeSize nodeRead rel

theorem readNodeAtOffset_eq (be : Backend) (page : Page) (snapshot : Option Snapshot) (off : Nat) :
    readNodeAtOffset be page snapshot off = (page.versionAt off).bind (fun v => v.read be snapshot) := by
  rcases hi : page.itemId off with ⟨flags, ⟨hdr, data⟩ | bytes⟩
  · cases flags <;> simp only [readNodeAtOffset, Page.versionAt, hi] <;> try rfl
    by_cases hl : data.length < nodeFixedDataSize
    · simp [hl, decodeNode]
    · simp [hl, NodeVersion.read]
  · cases flags <;> simp only [readNodeAtOffset, Page.versionAt, hi] <;> rfl

theorem locationAt_eq (page : Page) (off : Nat) (nodeId : Int64) :
    locationAt page off nodeId =
      (page.versionAt off).bind (fun v => if v.nodeId = nodeId ∧ v.unmarked then some v.slot else none) := by
  rcases hi : page.itemId off with ⟨flags, ⟨hdr, data⟩ | bytes⟩
  · cases flags <;> simp only [locationAt, Page.versionAt, hi] <;> try rfl
    by_cases hl : data.length < nodeFixedDataSize
    · simp [hl]
    · simp only [hl, if_false, Option.bind_some]
      rfl
  · cases flags <;> simp only [locationAt, Page.versionAt, hi] <;> rfl

/-- The scan pattern of the node store: overflow blocks are skipped. -/
theorem findSome?_blocks {β : Type} (f : Page → Nat → Nat → Option β) (rel : Relation) :
    (blocks rel).findSome? (fun (page, blkno) =>
      if isOverflowPage page then none else page.offsets.findSome? (f page blkno)) = scanFirst nodeSize f rel := by
  have h : (fun (pb : Page × Nat) => if isOverflowPage pb.1 then none else pb.1.offsets.findSome? (f pb.1 pb.2)) =
      fun pb => (List.range' 1 (nodeSize pb.1)).findSome? (f pb.1 pb.2) := by
    funext pb
    simp only [nodeSize, Page.offsets]
    split <;> simp
  exact congrArg (fun g => (blocks rel).findSome? g) h

theorem flatMap_blocks {β : Type} (f : Page → Nat → Nat → Option β) (rel : Relation) :
    (blocks rel).flatMap (fun (page, blkno) => if isOverflowPage page then [] else page.offsets.filterMap (f page blkno)) =
      scan nodeSize f rel := by
  have h : (fun (pb : Page × Nat) => if isOverflowPage pb.1 then [] else pb.1.offsets.filterMap (f pb.1 pb.2)) =
      fun pb => scanPage nodeSize f pb.1 pb.2 := by
    funext pb
    simp only [scanPage, nodeSize, Page.offsets]
    split <;> simp
  exact congrArg (fun g => (blocks rel).flatMap g) h

theorem mem_versions {rel : Relation} (h : NodePages rel) {loc : Nat × Nat} {v : NodeVersion} :
    (loc, v) ∈ versions rel ↔ versionAt rel loc = some v := by
  rw [versions, mem_scan, versionAt_eq_some]
  constructor
  · rintro ⟨b, p, o, hp, -, -, hr⟩
    obtain ⟨w, hw, he⟩ := Option.map_eq_some_iff.mp hr
    cases he
    exact ⟨p, hp, hw⟩
  · rintro ⟨p, hp, hv⟩
    obtain ⟨h1, h2⟩ := Page.offset_of_versionAt hv
    refine ⟨loc.1, p, loc.2, hp, h1, ?_, ?_⟩
    · rw [nodeSize, (h.isNodePage_of_versionAt hp hv).not_overflow]
      exact h2
    · rw [nodeRead, hv]
      rfl

/-- The first visible version of a node, as a search of the scan. -/
theorem scanNodeById_eq (be : Backend) (rel : Relation) (nodeId : Int64) (snapshot : Option Snapshot) :
    scanNodeById be rel nodeId snapshot =
      ((versions rel).filterMap (fun lv => (lv.2.read be snapshot).filter (fun rec => rec.nodeId == nodeId))).head? := by
  rw [scanNodeById, findSome?_blocks (fun page _ off =>
    (readNodeAtOffset be page snapshot off).filter (fun rec => rec.nodeId == nodeId)), scanFirst_eq_head?, versions,
    ← scan_bind]
  congr 2
  funext p b o
  rw [readNodeAtOffset_eq, nodeRead]
  cases p.versionAt o <;> rfl

theorem scanNodeLocation_eq (rel : Relation) (nodeId : Int64) :
    scanNodeLocation rel nodeId =
      ((versions rel).filterMap (fun lv =>
        if lv.2.nodeId = nodeId ∧ lv.2.unmarked then some (lv.1.1, lv.1.2, lv.2.slot) else none)).head? := by
  rw [scanNodeLocation, findSome?_blocks (fun page blkno off =>
    (locationAt page off nodeId).map (fun adj => (blkno, off, adj))), scanFirst_eq_head?, versions, ← scan_bind]
  congr 2
  funext p b o
  rw [locationAt_eq, nodeRead]
  cases p.versionAt o with
  | none => rfl
  | some v => simp only [Option.bind_some, Option.map_some]; split <;> rfl

theorem scanAllNodeLocations_eq (be : Backend) (rel : Relation) (snapshot : Option Snapshot) :
    scanAllNodeLocations be rel snapshot =
      (versions rel).filterMap (fun lv => (lv.2.read be snapshot).map (fun rec => (rec.nodeId, lv.1.1, lv.1.2))) := by
  rw [scanAllNodeLocations, flatMap_blocks (fun page blkno off =>
    (readNodeAtOffset be page snapshot off).map (fun rec => (rec.nodeId, blkno, off))), versions, ← scan_bind]
  congr 1
  funext p b o
  rw [readNodeAtOffset_eq, nodeRead]
  cases p.versionAt o <;> rfl

/-! ## Locations -/

/-- At most one version of a node has no deleter. -/
def UniqueUnmarked (rel : Relation) : Prop :=
  ∀ loc loc' v v', versionAt rel loc = some v → versionAt rel loc' = some v' → v.unmarked → v'.unmarked →
    v.nodeId = v'.nodeId → loc = loc'

/-- The unmarked version of a node: where it is and its adjacency slot. -/
def Located (rel : Relation) (nodeId : Int64) (blk off slot : Nat) : Prop :=
  ∃ v, versionAt rel (blk, off) = some v ∧ v.unmarked ∧ v.nodeId = nodeId ∧ v.slot = slot

theorem scanNodeLocation_eq_none {rel : Relation} (h : NodePages rel) {nodeId : Int64} :
    scanNodeLocation rel nodeId = none ↔ ∀ blk off slot, ¬Located rel nodeId blk off slot := by
  rw [scanNodeLocation_eq, List.head?_eq_none_iff, List.filterMap_eq_nil_iff]
  constructor
  · rintro hn blk off slot ⟨v, hv, hu, hi, hs⟩
    have := hn ((blk, off), v) ((mem_versions h).mpr hv)
    simp [hi, hu] at this
  · rintro hn ⟨loc, v⟩ hv
    rw [if_neg]
    rintro ⟨hi, hu⟩
    exact hn loc.1 loc.2 v.slot ⟨v, (mem_versions h).mp hv, hu, hi, rfl⟩

/-- What the scan finds is an unmarked version of the node. -/
theorem located_of_scanNodeLocation {rel : Relation} (h : NodePages rel) {nodeId : Int64} {blk off slot : Nat}
    (hs : scanNodeLocation rel nodeId = some (blk, off, slot)) : Located rel nodeId blk off slot := by
  rw [scanNodeLocation_eq] at hs
  obtain ⟨⟨loc, v⟩, hm, hv⟩ := List.mem_filterMap.mp (List.mem_of_head? hs)
  split at hv
  · next hc =>
    cases hv
    exact ⟨v, (mem_versions h).mp hm, hc.2, hc.1, rfl⟩
  · cases hv

theorem UniqueUnmarked.located {rel : Relation} (hu : UniqueUnmarked rel) {nodeId : Int64} {b o a b' o' a' : Nat}
    (h : Located rel nodeId b o a) (h' : Located rel nodeId b' o' a') : b = b' ∧ o = o' ∧ a = a' := by
  obtain ⟨v, hv, hm, hi, hs⟩ := h
  obtain ⟨v', hv', hm', hi', hs'⟩ := h'
  have hl := hu _ _ v v' hv hv' hm hm' (hi.trans hi'.symm)
  obtain ⟨rfl, rfl⟩ := Prod.mk.inj hl
  cases hv.symm.trans hv'
  exact ⟨rfl, rfl, hs.symm.trans hs'⟩

theorem scanNodeLocation_of_located {rel : Relation} (h : NodePages rel) (hu : UniqueUnmarked rel) {nodeId : Int64}
    {blk off slot : Nat} (hl : Located rel nodeId blk off slot) : scanNodeLocation rel nodeId = some (blk, off, slot) := by
  cases hs : scanNodeLocation rel nodeId with
  | none => exact absurd hl (scanNodeLocation_eq_none h |>.mp hs blk off slot)
  | some r =>
    obtain ⟨b, o, a⟩ := r
    obtain ⟨rfl, rfl, rfl⟩ := hu.located hl (located_of_scanNodeLocation h hs)
    rfl

/-- Whatever `find_node_location` returns, through the cache or by the scan, is an unmarked version of the node. -/
theorem located_of_findNodeLocation {rel : Relation} (h : NodePages rel) {cache : LocationCache} {nodeId : Int64}
    {blk off slot : Nat} (hs : findNodeLocation cache rel nodeId = .ok (some (blk, off, slot))) :
    Located rel nodeId blk off slot := by
  simp only [findNodeLocation] at hs
  split at hs
  · simp only [Except.ok.injEq] at hs
    exact located_of_scanNodeLocation h hs
  · next b o _ =>
    split at hs
    · cases hs
    · next page hp =>
      split at hs
      · next adj ha =>
        cases hs
        rw [locationAt_eq] at ha
        obtain ⟨v, hv, hc⟩ := Option.bind_eq_some_iff.mp ha
        split at hc
        · next hc' =>
          cases hc
          exact ⟨v, versionAt_eq_some.mpr ⟨page, hp, hv⟩, hc'.2, hc'.1, rfl⟩
        · cases hc
      · simp only [Except.ok.injEq] at hs
        exact located_of_scanNodeLocation h hs

/-- When `find_node_location` returns none there is no unmarked version of the node. -/
theorem not_located_of_findNodeLocation {rel : Relation} (h : NodePages rel) {cache : LocationCache} {nodeId : Int64}
    (hs : findNodeLocation cache rel nodeId = .ok none) (blk off slot : Nat) : ¬Located rel nodeId blk off slot := by
  have hscan : scanNodeLocation rel nodeId = none := by
    simp only [findNodeLocation] at hs
    split at hs
    · simpa using hs
    · split at hs
      · cases hs
      · split at hs
        · cases hs
        · simpa using hs
  exact scanNodeLocation_eq_none h |>.mp hscan blk off slot

/-- The cache does not change what is found: it only makes the call fail when it names a block that does not exist. -/
theorem findNodeLocation_eq {rel : Relation} (h : NodePages rel) (hu : UniqueUnmarked rel) (cache : LocationCache)
    (nodeId : Int64) :
    findNodeLocation cache rel nodeId =
      match cache nodeId with
      | none => .ok (scanNodeLocation rel nodeId)
      | some (blkno, _) =>
        if blkno < rel.length then .ok (scanNodeLocation rel nodeId) else .error (.couldNotReadBlock blkno) := by
  cases hc : cache nodeId with
  | none => simp only [findNodeLocation, hc]
  | some bo =>
    obtain ⟨blkno, off⟩ := bo
    cases hp : rel[blkno]? with
    | none =>
      have : ¬blkno < rel.length := Nat.not_lt.mpr (List.getElem?_eq_none_iff.mp hp)
      simp only [findNodeLocation, hc, hp, this, if_false]
    | some page =>
      have hlt : blkno < rel.length := (List.getElem?_eq_some_iff.mp hp).1
      cases hl : locationAt page off nodeId with
      | none => simp only [findNodeLocation, hc, hp, hl, hlt, if_true]
      | some adj =>
        have hloc : Located rel nodeId blkno off adj :=
          located_of_findNodeLocation h (show findNodeLocation cache rel nodeId = _ by
            simp only [findNodeLocation, hc, hp, hl])
        simp only [findNodeLocation, hc, hp, hl, hlt, if_true, scanNodeLocation_of_located h hu hloc]

end PgEddy
