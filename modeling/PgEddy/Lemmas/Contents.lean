import PgEddy.Lemmas.EdgeFates
import PgEddy.Lemmas.NodeReads
import PgEddy.Mutation

/-!
# What the store holds

The row of every node and edge that has not been deleted, whoever asks. What the calls of the storage code do to the rows is what
`mutation.rs` tells the mirror and the stream, and a reader who sees every inserter scans exactly these rows.
-/

namespace PgEddy

open ChangeLog

/-! ## Overflow blocks stay -/

/-- What `read_overflow_block` takes from a page. -/
def Page.overflowBytes (p : Page) : Bytes :=
  match (p.itemId 1).item with
  | .raw bytes => bytes
  | .tuple _ _ => []

/-- Every block has the overflow bytes it had. -/
def KeepsOverflow (rel rel' : Relation) : Prop :=
  ∀ (b : Nat) (p : Page), rel[b]? = some p → ∃ p' : Page, rel'[b]? = some p' ∧ p'.overflowBytes = p.overflowBytes

theorem KeepsOverflow.trans {rel rel' rel'' : Relation} (h : KeepsOverflow rel rel') (h' : KeepsOverflow rel' rel'') :
    KeepsOverflow rel rel'' := by
  intro b p hp
  obtain ⟨p', hp', he⟩ := h b p hp
  obtain ⟨p'', hp'', he'⟩ := h' b p' hp'
  exact ⟨p'', hp'', he'.trans he⟩

theorem Grows.keepsOverflow {rel rel' : Relation} (h : Grows rel rel') : KeepsOverflow rel rel' :=
  fun _ p hp => ⟨p, h.getElem? hp, rfl⟩

theorem keepsOverflow_modifyBlock {rel : Relation} {blk : Nat} {f : Page → Page}
    (h : ∀ p, rel[blk]? = some p → (f p).overflowBytes = p.overflowBytes) : KeepsOverflow rel (modifyBlock rel blk f) := by
  intro b p hp
  by_cases hb : b = blk
  · subst hb
    exact ⟨f p, by rw [getElem?_modifyBlock, if_pos rfl, hp, Option.map_some], h p hp⟩
  · exact ⟨p, by rw [getElem?_modifyBlock, if_neg hb, hp], rfl⟩

theorem Page.overflowBytes_push (p : Page) (hdr : HeapTupleHeader) (data : Bytes) :
    (p.push (.tuple hdr data)).overflowBytes = p.overflowBytes := by
  simp only [Page.overflowBytes, Page.itemId_push]
  by_cases h : 1 = p.maxOffset + 1
  · have hzero : p.itemId 1 = ItemId.zero := Page.itemId_of_lt (by omega)
    rw [if_pos h, hzero]
    rfl
  · rw [if_neg h]

theorem Page.overflowBytes_setXmax {p : Page} {off : Nat} {v : NodeVersion} (hv : p.versionAt off = some v) (xmax : Xid) :
    (p.modifyItem off (Item.mapHdr (·.setXmax xmax))).overflowBytes = p.overflowBytes := by
  obtain ⟨h1, h2⟩ := Page.offset_of_versionAt hv
  simp only [Page.overflowBytes, Page.itemId_modifyItem h1 h2]
  by_cases ho : 1 = off
  · subst ho
    simp only [if_true, Page.itemId_of_versionAt hv, Item.mapHdr]
  · simp only [ho, if_false]

theorem keepsOverflow_setXmaxAt {rel : Relation} {blk off : Nat} {v : NodeVersion} (hv : versionAt rel (blk, off) = some v)
    (xmax : Xid) : KeepsOverflow rel (setXmaxAt rel blk off xmax) := by
  obtain ⟨page, hp, hpv⟩ := versionAt_eq_some.mp hv
  refine keepsOverflow_modifyBlock fun p hp' => ?_
  cases hp.symm.trans hp'
  exact Page.overflowBytes_setXmax hpv xmax

theorem keepsOverflow_pushAt (rel : Relation) (blk : Nat) (v : NodeVersion) : KeepsOverflow rel (pushAt rel blk v) :=
  keepsOverflow_modifyBlock fun p _ => Page.overflowBytes_push p v.hdr v.data

theorem keepsOverflow_writeAdjHeaderAt (rel : Relation) (blk idx : Nat) (hdr : NodeAdjHeader) :
    KeepsOverflow rel (writeAdjHeaderAt rel blk idx hdr) :=
  keepsOverflow_modifyBlock fun p _ => by simp only [Page.overflowBytes, Page.itemId_writeAdjHeader]

theorem readOverflowBlock_of_some {rel : Relation} {b : Nat} {p : Page} (hp : rel[b]? = some p) :
    readOverflowBlock rel b = .ok p.overflowBytes := by
  simp only [readOverflowBlock, readBuffer, hp, Page.overflowBytes]
  rfl

theorem KeepsOverflow.resolved {rel rel' : Relation} (h : KeepsOverflow rel rel') {r : NodeRecord}
    (hr : r.overflowBlkno = 0 ∨ r.overflowBlkno < rel.length) : resolved rel' r = resolved rel r := by
  by_cases hc : r.overflowBlkno ≠ 0 ∧ r.propBytes = []
  · have hlt := hr.resolve_left hc.1
    obtain ⟨p', hp', he⟩ := h _ _ (List.getElem?_eq_getElem hlt)
    simp only [PgEddy.resolved, resolveOverflow, if_pos hc, readOverflowBlock_of_some hp', he,
      readOverflowBlock_of_some (List.getElem?_eq_getElem hlt)]
  · simp only [PgEddy.resolved, resolveOverflow, if_neg hc]

/-- Fetching the properties a second time changes nothing. -/
theorem resolveOverflow_resolved {rel : Relation} {r r' : NodeRecord} (h : resolveOverflow rel r = .ok r') :
    resolveOverflow rel r' = .ok r' := by
  by_cases hc : r.overflowBlkno ≠ 0 ∧ r.propBytes = []
  · rw [resolveOverflow, if_pos hc] at h
    cases hb : readOverflowBlock rel r.overflowBlkno with
    | error e => rw [hb] at h; cases h
    | ok bytes =>
      rw [hb] at h
      cases h
      simp only [resolveOverflow, hb]
      split
      · next hc' => rw [hc'.2]; rfl
      · rfl
  · rw [resolveOverflow, if_neg hc] at h
    cases h
    rw [resolveOverflow, if_neg hc]

/-! ## The nodes -/

/-- The row of the undeleted version at a location. -/
def nodeRowAt (names : Names) (rel : Relation) (loc : Nat × Nat) : Option NodeRow :=
  (versionAt rel loc).bind (fun v =>
    if v.unmarked then (decodeNode v.data).map (fun r => nodeRow names (resolved rel r)) else none)

/-- The store holds the row of a node. -/
def HasNode (names : Names) (rel : Relation) (row : NodeRow) : Prop := ∃ loc, nodeRowAt names rel loc = some row

section Nodes

variable {names : Names} {rel rel' : Relation}

theorem nodeRowAt_eq_some {loc : Nat × Nat} {row : NodeRow} :
    nodeRowAt names rel loc = some row ↔
      ∃ v r, versionAt rel loc = some v ∧ v.unmarked = true ∧ decodeNode v.data = some r ∧
        nodeRow names (resolved rel r) = row := by
  simp only [nodeRowAt, Option.bind_eq_some_iff]
  constructor
  · rintro ⟨v, hv, hr⟩
    split at hr
    · next hu =>
      obtain ⟨r, hd, hrow⟩ := Option.map_eq_some_iff.mp hr
      exact ⟨v, r, hv, hu, hd, hrow⟩
    · cases hr
  · rintro ⟨v, r, hv, hu, hd, rfl⟩
    exact ⟨v, hv, by rw [if_pos hu, hd]; rfl⟩

@[simp] theorem nodeId_nodeRow (record : NodeRecord) : (nodeRow names record).nodeId = record.nodeId := rfl

/-- A row has the id of the version it is read from. -/
theorem nodeId_of_nodeRowAt {loc : Nat × Nat} {row : NodeRow} {v : NodeVersion} (h : nodeRowAt names rel loc = some row)
    (hv : versionAt rel loc = some v) : row.nodeId = v.nodeId := by
  obtain ⟨w, r, hw, -, hd, rfl⟩ := nodeRowAt_eq_some.mp h
  cases hv.symm.trans hw
  rw [nodeId_nodeRow, nodeId_resolved, (decodeNode_fields hd).1]
  rfl

theorem nodeRowAt_unique (hu : UniqueUnmarked rel) {loc loc' : Nat × Nat} {row row' : NodeRow}
    (h : nodeRowAt names rel loc = some row) (h' : nodeRowAt names rel loc' = some row') (hid : row.nodeId = row'.nodeId) :
    loc = loc' := by
  obtain ⟨v, -, hv, hm, -, -⟩ := nodeRowAt_eq_some.mp h
  obtain ⟨v', -, hv', hm', -, -⟩ := nodeRowAt_eq_some.mp h'
  refine hu loc loc' v v' hv hv' hm hm' ?_
  rw [← nodeId_of_nodeRowAt h hv, ← nodeId_of_nodeRowAt h' hv', hid]

/-- The rows depend on the versions and the overflow blocks only. -/
theorem nodeRowAt_congr (hs : AllStored rel) (hv : ∀ loc, versionAt rel' loc = versionAt rel loc) (hk : KeepsOverflow rel rel')
    (loc : Nat × Nat) : nodeRowAt names rel' loc = nodeRowAt names rel loc := by
  simp only [nodeRowAt, hv]
  refine Option.bind_congr fun v hver => ?_
  split
  · refine Option.map_congr fun r hr => ?_
    rw [hk.resolved ((decodeNode_fields hr).2 ▸ (hs loc v hver).overflow)]
  · rfl

/-- A deleter takes the row away. -/
theorem nodeRowAt_setXmaxAt (hs : AllStored rel) {blk off : Nat} {v : NodeVersion} (hv : versionAt rel (blk, off) = some v)
    (xid : Xid) (loc : Nat × Nat) :
    nodeRowAt names (setXmaxAt rel blk off xid) loc = if loc = (blk, off) then none else nodeRowAt names rel loc := by
  simp only [nodeRowAt, versionAt_setXmaxAt hv]
  by_cases hl : loc = (blk, off)
  · simp [hl]
  · simp only [if_neg hl]
    refine Option.bind_congr fun w hw => ?_
    split
    · refine Option.map_congr fun r hr => ?_
      rw [(keepsOverflow_setXmaxAt hv xid).resolved ((decodeNode_fields hr).2 ▸ (hs loc w hw).overflow)]
    · rfl

/-- A new version adds its row, where no row was. -/
theorem nodeRowAt_pushAt (hs : AllStored rel) {blk : Nat} {page : Page} {v : NodeVersion} {r : NodeRecord}
    (hp : rel[blk]? = some page) (hl : nodeFixedDataSize ≤ v.data.length) (hu : v.unmarked = true)
    (hd : decodeNode v.data = some r) (hr : r.overflowBlkno = 0 ∨ r.overflowBlkno < rel.length) (loc : Nat × Nat) :
    nodeRowAt names (pushAt rel blk v) loc =
      if loc = (blk, page.maxOffset + 1) then some (nodeRow names (resolved rel r)) else nodeRowAt names rel loc := by
  simp only [nodeRowAt, versionAt_pushAt hp hl]
  by_cases hloc : loc = (blk, page.maxOffset + 1)
  · simp only [if_pos hloc, Option.bind_some, hu, if_true, hd, Option.map_some, (keepsOverflow_pushAt rel blk v).resolved hr]
  · simp only [if_neg hloc]
    refine Option.bind_congr fun w hw => ?_
    split
    · refine Option.map_congr fun q hq => ?_
      rw [(keepsOverflow_pushAt rel blk v).resolved ((decodeNode_fields hq).2 ▸ (hs loc w hw).overflow)]
    · rfl

theorem nodeRowAt_behind {blk : Nat} {page : Page} (hp : rel[blk]? = some page) :
    nodeRowAt names rel (blk, page.maxOffset + 1) = none := by
  have hzero : page.itemId (page.maxOffset + 1) = ItemId.zero := Page.itemId_of_lt (Nat.lt_succ_self _)
  simp only [nodeRowAt, versionAt, hp, Option.bind_some, Page.versionAt, hzero, ItemId.zero, Option.bind_none]

theorem hasNode_congr (hs : AllStored rel) (hv : ∀ loc, versionAt rel' loc = versionAt rel loc) (hk : KeepsOverflow rel rel')
    {row : NodeRow} : HasNode names rel' row ↔ HasNode names rel row := by
  simp only [HasNode, nodeRowAt_congr hs hv hk]

theorem hasNode_grows (hs : AllStored rel) (hg : Grows rel rel') {row : NodeRow} :
    HasNode names rel' row ↔ HasNode names rel row := hasNode_congr hs hg.versionAt hg.keepsOverflow

theorem hasNode_setXmaxAt (hs : AllStored rel) (hu : UniqueUnmarked rel) {nodeId : Int64} {blk off slot : Nat}
    (hloc : Located rel nodeId blk off slot) (xid : Xid) {row : NodeRow} :
    HasNode names (setXmaxAt rel blk off xid) row ↔ HasNode names rel row ∧ row.nodeId ≠ nodeId := by
  obtain ⟨v, hv, hm, hid, -⟩ := hloc
  simp only [HasNode, nodeRowAt_setXmaxAt hs hv]
  constructor
  · rintro ⟨loc, hrow⟩
    split at hrow
    · cases hrow
    · next hne =>
      refine ⟨⟨loc, hrow⟩, fun hrid => hne ?_⟩
      obtain ⟨w, -, hw, hwm, -, -⟩ := nodeRowAt_eq_some.mp hrow
      exact hu loc (blk, off) w v hw hv hwm hm (by rw [← nodeId_of_nodeRowAt hrow hw, hrid, hid])
  · rintro ⟨⟨loc, hrow⟩, hne⟩
    refine ⟨loc, ?_⟩
    rw [if_neg, hrow]
    rintro rfl
    exact hne ((nodeId_of_nodeRowAt hrow hv).trans hid)

theorem hasNode_pushAt (hs : AllStored rel) {blk : Nat} {page : Page} {v : NodeVersion} {r : NodeRecord}
    (hp : rel[blk]? = some page) (hl : nodeFixedDataSize ≤ v.data.length) (hu : v.unmarked = true)
    (hd : decodeNode v.data = some r) (hr : r.overflowBlkno = 0 ∨ r.overflowBlkno < rel.length) {row : NodeRow} :
    HasNode names (pushAt rel blk v) row ↔ HasNode names rel row ∨ row = nodeRow names (resolved rel r) := by
  simp only [HasNode, nodeRowAt_pushAt hs hp hl hu hd hr]
  constructor
  · rintro ⟨loc, hrow⟩
    split at hrow
    · cases hrow
      exact Or.inr rfl
    · exact Or.inl ⟨loc, hrow⟩
  · rintro (⟨loc, hrow⟩ | rfl)
    · refine ⟨loc, ?_⟩
      rw [if_neg, hrow]
      rintro rfl
      rw [nodeRowAt_behind hp] at hrow
      cases hrow
    · exact ⟨(blk, page.maxOffset + 1), if_pos rfl⟩

end Nodes

/-! ### The calls on nodes -/

section NodeCalls

variable {names : Names} {pg : PgSys} {xid : Xid} {s t : Store} {nodeId : Int64} {labelIds : List Int32} {propBytes : Bytes}

/-- The record of a new version. -/
def newRecord (nodeId : Int64) (slot : Nat) (labelIds : List Int32) (inl : Bytes) (ovfBlk : Nat) : NodeRecord :=
  { nodeId := nodeId, adjSlotIdx := slot % 65536, overflowBlkno := ovfBlk, labelIds := labelIds,
    propBytes := if ovfBlk = 0 then inl else [] }

theorem decodeNode_newVersion {inl : Bytes} {ovfBlk : Nat} (hl : WithinLimits labelIds inl) (ho : ovfBlk < maxBlocks)
    (slot blk off : Nat) :
    decodeNode (newVersion xid nodeId slot labelIds inl ovfBlk blk off).data =
      some (newRecord nodeId slot labelIds inl ovfBlk) := by
  rw [newVersion, decodeNode_nodeData nodeId slot labelIds inl ovfBlk hl.1 hl.2 (Nat.le_of_lt ho), newRecord]

theorem nodeRow_inline (rel : Relation) (slot : Nat) :
    nodeRow names (resolved rel (newRecord nodeId slot labelIds propBytes 0)) =
      nodeRow names (writtenNode nodeId labelIds propBytes) := by
  simp only [newRecord, resolved, resolveOverflow, ne_eq, not_true_eq_false, false_and, if_false, if_true]
  rfl

/-- The record of a new version, with its properties, has the row that was written. -/
theorem nodeRow_stored {rel rel' : Relation} {inl : Bytes} {ovf : Option (Nat × Page)} {ovfBlk : Nat}
    (h : StoredProps rel propBytes rel' inl ovf ovfBlk) (hne : 0 < rel.length) (slot : Nat) :
    nodeRow names (resolved rel' (newRecord nodeId slot labelIds inl ovfBlk)) =
      nodeRow names (writtenNode nodeId labelIds propBytes) := by
  cases h with
  | inline hl => exact nodeRow_inline rel slot
  | @overflow image hl hlt himg hraw =>
    have h0 : rel.length ≠ 0 := Nat.ne_of_gt hne
    have hread : readOverflowBlock (rel ++ [image]) rel.length = .ok propBytes := by
      rw [readOverflowBlock_of_some List.getElem?_concat_length, Page.overflowBytes, hraw]
    simp only [newRecord, resolved, resolveOverflow, ne_eq, h0, not_false_eq_true, if_false, and_self, if_true, hread]
    rfl

theorem hasNode_insertNode (hw : WellFormed s) (hs : AllStored s.nodes) {loc : Nat × Nat}
    (h : insertNode pg xid s nodeId labelIds propBytes = (t, .ok loc)) {row : NodeRow} :
    HasNode names t.nodes row ↔
      HasNode names s.nodes row ∨ row = nodeRow names (writtenNode nodeId labelIds propBytes) := by
  have hr := insertNode_result pg xid nodeId labelIds propBytes hw.nodePages
  rw [h] at hr
  cases hr with
  | inserted hl hpick hg hp hnp hfit hsp =>
    have hgrow := hg.trans hsp.grows
    have hne := Nat.lt_of_le_of_lt (Nat.zero_le _) (List.getElem?_eq_some_iff.mp hp).1
    rw [hasNode_pushAt (hs.grows hgrow) (hsp.grows.getElem? hp) (length_newVersion ..) rfl
      (decodeNode_newVersion ⟨hl, hsp.length_le⟩ hsp.ovfBlk_lt.1 ..) hsp.ovfBlk_lt.2, hasNode_grows hs hgrow,
      nodeRow_stored hsp hne]

/-- A row of the store gives way to a new version of the node. -/
theorem hasNode_newVersion (hs : AllStored s.nodes) (hu : UniqueUnmarked s.nodes) {rel : Relation}
    {blk off slot slot' blk' : Nat} {page : Page} (hloc : Located s.nodes nodeId blk off slot)
    (hg : Grows (setXmaxAt s.nodes blk off xid) rel) (hp : rel[blk']? = some page) (hl : WithinLimits labelIds propBytes)
    {row : NodeRow} :
    HasNode names (pushAt rel blk' (newVersion xid nodeId slot' labelIds propBytes 0 blk' (page.maxOffset + 1))) row ↔
      (HasNode names s.nodes row ∧ row.nodeId ≠ nodeId) ∨ row = nodeRow names (writtenNode nodeId labelIds propBytes) := by
  obtain ⟨v, hv, -⟩ := id hloc
  have hmarked := hs.setXmaxAt xid hv
  rw [hasNode_pushAt (hmarked.grows hg) hp (length_newVersion ..) rfl (decodeNode_newVersion hl (by decide) ..)
    (Or.inl rfl), nodeRow_inline, hasNode_grows hmarked hg, hasNode_setXmaxAt hs hu hloc]

theorem hasNode_updateNode (hw : Sound s) (hs : AllStored s.nodes) {cache : LocationCache}
    (h : updateNode pg xid cache s nodeId labelIds propBytes = (t, .ok true)) {row : NodeRow} :
    HasNode names t.nodes row ↔ (HasNode names s.nodes row ∧ row.nodeId ≠ nodeId) ∨
      row = nodeRow names (writtenNode nodeId labelIds propBytes) := by
  rcases updateNode_cases pg xid cache nodeId labelIds propBytes hw.nodePages with
    ⟨r, hr, -, hne⟩ | ⟨blk, off, slot, hl, hb, -, hloc, hat⟩
  · rw [h] at hr
    exact absurd (Prod.mk.inj hr).2.symm hne
  obtain ⟨v, hv, -⟩ := id hloc
  obtain ⟨page, hp, hpv⟩ := versionAt_eq_some.mp hv
  have hr := updateNodeAt_result pg xid nodeId slot hw.nodePages hl hb hp hpv
  rw [← hat, h] at hr
  cases hr with
  | stayed _ =>
    have hp' : (setXmaxAt s.nodes blk off xid)[blk]? = some (page.modifyItem off (Item.mapHdr (·.setXmax xid))) := by
      rw [getElem?_setXmaxAt, if_pos rfl, hp, Option.map_some]
    rw [← Page.maxOffset_modifyItem page off (Item.mapHdr (·.setXmax xid))]
    exact hasNode_newVersion hs hw.unique hloc (Grows.refl _) hp' ⟨hl, hb⟩
  | moved _ _ hg hp' _ => exact hasNode_newVersion hs hw.unique hloc hg hp' ⟨hl, hb⟩

theorem hasNode_deleteNodeById (hw : Sound s) (hs : AllStored s.nodes) {cache : LocationCache}
    (h : deleteNodeById xid cache s nodeId = (t, .ok true)) {row : NodeRow} :
    HasNode names t.nodes row ↔ HasNode names s.nodes row ∧ row.nodeId ≠ nodeId := by
  rcases deleteNodeById_cases xid cache nodeId hw.nodePages with ⟨r, hr, -, hne⟩ | ⟨blk, off, slot, hloc, hat⟩
  · rw [h] at hr
    exact absurd (Prod.mk.inj hr).2.symm hne
  · rw [h] at hat
    cases hat
    exact hasNode_setXmaxAt hs hw.unique hloc xid

/-- An update that finds no version leaves the store as it is. -/
theorem updateNode_eq_false (hw : WellFormed s) {cache : LocationCache}
    (h : updateNode pg xid cache s nodeId labelIds propBytes = (t, .ok false)) : t = s := by
  rcases updateNode_cases pg xid cache nodeId labelIds propBytes hw.nodePages with
    ⟨r, hr, -, -⟩ | ⟨blk, off, slot, hl, hb, -, hloc, hat⟩
  · rw [h] at hr
    exact (Prod.mk.inj hr).1
  obtain ⟨v, hv, -⟩ := id hloc
  obtain ⟨page, hp, hpv⟩ := versionAt_eq_some.mp hv
  have hr := updateNodeAt_result pg xid nodeId slot hw.nodePages hl hb hp hpv
  rw [← hat, h] at hr
  cases hr

theorem deleteNodeById_eq_false (hw : WellFormed s) {cache : LocationCache}
    (h : deleteNodeById xid cache s nodeId = (t, .ok false)) : t = s := by
  rcases deleteNodeById_cases xid cache nodeId hw.nodePages with ⟨r, hr, -, -⟩ | ⟨blk, off, slot, hloc, hat⟩
  · rw [h] at hr
    exact (Prod.mk.inj hr).1
  · rw [h] at hat
    cases hat

theorem bind_eq_ok {ε α β : Type} {x : Except ε α} {f : α → Except ε β} {b : β} (h : x >>= f = .ok b) :
    ∃ a, x = .ok a ∧ f a = .ok b := by
  cases x with
  | error e => cases h
  | ok a => exact ⟨a, rfl, h⟩

/-- What `find_node_by_id` finds, through the cache or by the scan, is an undeleted version with its properties. -/
theorem findNodeById_eq_some {be : Backend} {cache : LocationCache} {rel : Relation} {snapshot : Option Snapshot}
    {r : NodeRecord} (hn : NodePages rel) (h : findNodeById be cache rel nodeId snapshot = .ok (some r)) :
    ∃ loc v q, versionAt rel loc = some v ∧ v.read be snapshot = some q ∧ q.nodeId = nodeId ∧
      resolveOverflow rel q = .ok r := by
  have hslow : findNodeById be .empty rel nodeId snapshot = .ok (some r) →
      ∃ loc v q, versionAt rel loc = some v ∧ v.read be snapshot = some q ∧ q.nodeId = nodeId ∧ resolveOverflow rel q = .ok r := by
    intro h
    simp only [findNodeById, LocationCache.empty] at h
    cases hf : scanNodeById be rel nodeId snapshot with
    | none => rw [hf] at h; cases h
    | some q =>
      rw [hf] at h
      obtain ⟨r', hr', hret⟩ := bind_eq_ok h
      cases hret
      rw [scanNodeById_eq] at hf
      obtain ⟨⟨loc, v⟩, hm, hq⟩ := List.mem_filterMap.mp (List.mem_of_head? hf)
      obtain ⟨hq, hid⟩ := Option.filter_eq_some_iff.mp hq
      exact ⟨loc, v, q, (mem_versions hn).mp hm, hq, by simpa using hid, hr'⟩
  simp only [findNodeById, LocationCache.empty] at hslow
  cases hc : cache nodeId with
  | none =>
    simp only [findNodeById, hc] at h
    exact hslow h
  | some bo =>
    obtain ⟨blk, off⟩ := bo
    simp only [findNodeById, hc] at h
    obtain ⟨page, hread, h⟩ := bind_eq_ok h
    cases hr : readNodeAtOffset be page snapshot off with
    | none =>
      rw [hr] at h
      exact hslow h
    | some q =>
      simp only [hr] at h
      by_cases hid : (q.nodeId == nodeId) = true
      · simp only [hid, if_true] at h
        obtain ⟨r', hr', hret⟩ := bind_eq_ok h
        cases hret
        have hp : rel[blk]? = some page := by
          simp only [readBuffer] at hread
          split at hread
          · next hp => cases hread; exact hp
          · cases hread
        rw [readNodeAtOffset_eq] at hr
        obtain ⟨v, hv, hq⟩ := Option.bind_eq_some_iff.mp hr
        exact ⟨(blk, off), v, q, versionAt_eq_some.mpr ⟨page, hp, hv⟩, hq, by simpa using hid, hr'⟩
      · simp only [hid] at h
        exact hslow h

/-- The record that `load_node_record` returns has the row of the node. -/
theorem hasNode_loadNodeRecord {caller : Caller} {rel : Relation} {old : NodeRecord} (hn : NodePages rel)
    (h : loadNodeRecord caller rel nodeId = .ok (some old)) :
    HasNode names rel (nodeRow names old) ∧ old.nodeId = nodeId := by
  simp only [loadNodeRecord] at h
  obtain ⟨found, hfound, h⟩ := bind_eq_ok h
  cases found with
  | none => cases h
  | some r =>
    obtain ⟨r', hr', hret⟩ := bind_eq_ok h
    cases hret
    obtain ⟨loc, v, q, hv, hq, hid, hres⟩ := findNodeById_eq_some hn hfound
    cases hr'.symm.trans (resolveOverflow_resolved hres)
    obtain ⟨-, hu, hd⟩ := NodeVersion.read_eq_some.mp hq
    have hresolved : resolved rel q = old := by simp only [resolved, hres]
    refine ⟨⟨loc, nodeRowAt_eq_some.mpr ⟨v, q, hv, hu, hd, by rw [hresolved]⟩⟩, ?_⟩
    rw [← hresolved, nodeId_resolved, hid]

end NodeCalls

/-! ### The scan -/

theorem not_hasNode_nil {names : Names} {row : NodeRow} : ¬HasNode names [] row := by
  rintro ⟨loc, h⟩
  simp [nodeRowAt, versionAt] at h

section Scan

variable {names : Names} {rel : Relation} {be : Backend} {snapshot : Option Snapshot}

/-- A reader who sees the inserter of every version reads the rows of the store. -/
theorem holds_nodeReads (hn : NodePages rel) (hu : UniqueUnmarked rel)
    (hall : ∀ loc v, versionAt rel loc = some v → xminVisible be snapshot v.hdr = true) :
    Holds NodeRow.nodeId ((nodeReads be snapshot rel).map (fun r => nodeRow names (resolved rel r))) (HasNode names rel) where
  unique := by
    have hids := @nodeReads_ids_nodup be snapshot rel hn hu
    simpa [List.map_map, Function.comp_def] using hids
  mem_iff row := by
    simp only [List.mem_map, nodeReads, List.mem_filterMap]
    constructor
    · rintro ⟨r, ⟨⟨loc, v⟩, hm, hr⟩, rfl⟩
      obtain ⟨-, hm', hd⟩ := NodeVersion.read_eq_some.mp hr
      exact ⟨loc, nodeRowAt_eq_some.mpr ⟨v, r, (mem_versions hn).mp hm, hm', hd, rfl⟩⟩
    · rintro ⟨loc, h⟩
      obtain ⟨v, r, hv, hm, hd, hrow⟩ := nodeRowAt_eq_some.mp h
      exact ⟨r, ⟨(loc, v), (mem_versions hn).mpr hv, NodeVersion.read_eq_some.mpr ⟨hall loc v hv, hm, hd⟩⟩, hrow⟩

/-- A scan with enough rounds returns the records read, with their properties. -/
theorem collect_begin (hs : AllStored rel) (hn : NodePages rel) {fuel : Nat}
    (hf : (nodeReads be snapshot rel).length < fuel) :
    (NodeScanState.begin rel).collect be rel snapshot fuel = .ok ((nodeReads be snapshot rel).map (resolved rel)) := by
  refine collect_eq _ _ fuel hf rfl (Nat.le_refl 1) (remaining_begin be snapshot rel) fun r hr => ?_
  obtain ⟨⟨loc, v⟩, hm, hread⟩ := List.mem_filterMap.mp hr
  exact resolveOverflow_eq (overflow_of_read hs ((mem_versions hn).mp hm) hread)

end Scan

/-! ## The edges -/

/-- The store holds the row of an edge. -/
def HasEdge (names : Names) (edges : Relation) (row : EdgeRow) : Prop := ∃ r ∈ liveRecords edges, edgeRow names r = row

@[simp] theorem relId_edgeRow {names : Names} (record : EdgeRecord) : (edgeRow names record).relId = record.edgeId := rfl

theorem not_hasEdge_nil {names : Names} {row : EdgeRow} : ¬HasEdge names [] row := by
  rintro ⟨r, hr, -⟩
  cases hr

theorem holds_liveRecords {names : Names} {edges : Relation} (h : DistinctEdgeIds edges) :
    Holds EdgeRow.relId ((liveRecords edges).map (edgeRow names)) (HasEdge names edges) where
  unique := by simpa [List.map_map, Function.comp_def] using h.nodup_live
  mem_iff row := List.mem_map

section EdgeCalls

variable {names : Names} {pg : PgSys} {be : Backend} {xid : Xid} {s t : Store} {edgeId : Int64} {propBytes : Bytes}

theorem findEdgeById_eq_some {edges : Relation} {r : EdgeRecord} (h : findEdgeById be edges edgeId = some r) :
    ∃ e ∈ edgeItems edges, e.edgeId = edgeId ∧ e.read be = some r := by
  rw [findEdgeById_eq] at h
  obtain ⟨e, he, hr⟩ := List.mem_filterMap.mp (List.mem_of_head? h)
  obtain ⟨hr, hid⟩ := Option.filter_eq_some_iff.mp hr
  refine ⟨e, he, ?_, hr⟩
  rw [← (EdgeItem.record_fields (EdgeItem.read_eq_some.mp hr).2).1]
  simpa using hid

/-- The record that `load_edge_record` returns is the one undeleted record of the edge. -/
theorem mem_liveRecords_of_find {edges : Relation} {r : EdgeRecord} (h : findEdgeById be edges edgeId = some r) :
    r ∈ liveRecords edges ∧ r.edgeId = edgeId := by
  obtain ⟨e, he, hid, hr⟩ := findEdgeById_eq_some h
  obtain ⟨hv, hrec⟩ := EdgeItem.read_eq_some.mp hr
  refine ⟨mem_liveRecords.mpr ⟨e, he, ?_, hrec⟩, (EdgeItem.record_fields hrec).1.trans hid⟩
  simp only [edgeVisible] at hv
  split at hv
  · cases hv
  · exact (Bool.and_eq_true_iff.mp hv).2

/-- A linked edge: a new record, and the nodes as they were. -/
theorem insertEdge_spec (hw : WellFormed s) {cache : LocationCache} {relTypeId : Int32} {src tgt : Int64}
    (h : insertEdge pg xid cache s edgeId relTypeId src tgt propBytes = (t, .ok ())) :
    (∃ r, (∀ names, edgeRow names r = edgeRow names (writtenEdge edgeId relTypeId src tgt propBytes)) ∧
        liveRecords t.edges = r :: liveRecords s.edges) ∧
      (∀ loc, versionAt t.nodes loc = versionAt s.nodes loc) ∧ KeepsOverflow s.nodes t.nodes := by
  rcases insertEdge_cases pg xid cache edgeId relTypeId src tgt propBytes hw.nodePages with
    ⟨e, he, -⟩ | ⟨sb, sOff, sa, tb, tOff, ta, srcAdj, tgtAdj, hb, -, -, -, -, he⟩
  · rw [h] at he
    cases he
  have hr := linkEdge_result pg xid edgeId relTypeId src tgt sb sa tb ta srcAdj tgtAdj hw.edgePages hb
  rw [← he, h] at hr
  cases hr with
  | linked loc hnodes _ hitems =>
    have hrec := decodeEdgeRecord_edgeData edgeId relTypeId src tgt srcAdj.outHeadPg srcAdj.outHeadSl tgtAdj.inHeadPg
      tgtAdj.inHeadSl propBytes loc.1 loc.2 hb
    refine ⟨⟨_, ?_, liveRecords_append hitems rfl hrec⟩, ?_, ?_⟩
    · exact fun _ => rfl
    · intro l
      rw [hnodes, versionAt_pushHeads]
    · rw [hnodes]
      exact (keepsOverflow_writeAdjHeaderAt _ _ _ _).trans (keepsOverflow_writeAdjHeaderAt _ _ _ _)

theorem hasEdge_insertEdge (hw : WellFormed s) {cache : LocationCache} {relTypeId : Int32} {src tgt : Int64}
    (h : insertEdge pg xid cache s edgeId relTypeId src tgt propBytes = (t, .ok ())) {row : EdgeRow} :
    HasEdge names t.edges row ↔
      HasEdge names s.edges row ∨ row = edgeRow names (writtenEdge edgeId relTypeId src tgt propBytes) := by
  obtain ⟨r, hrow, hlive⟩ := (insertEdge_spec hw h).1
  simp only [HasEdge, hlive, List.mem_cons, exists_eq_or_imp, hrow]
  rw [or_comm, eq_comm (a := row)]

/-- A deletion that finds the edge takes its row away. -/
theorem hasEdge_deleteEdge (hids : DistinctEdgeIds s.edges) (h : deleteEdge xid s edgeId = (t, .ok true)) {row : EdgeRow} :
    HasEdge names t.edges row ↔ HasEdge names s.edges row ∧ row.relId ≠ edgeId := by
  rcases deleteEdge_cases xid s edgeId with ⟨hr, -⟩ | ⟨e, he, hid, -, hr⟩
  · rw [h] at hr
    cases hr
  rw [h] at hr
  cases hr
  simp only [HasEdge, liveRecords_setXmaxAt hids he, List.mem_filter, hid]
  constructor
  · rintro ⟨r, ⟨hr, hne⟩, rfl⟩
    exact ⟨⟨r, hr, rfl⟩, by simpa using hne⟩
  · rintro ⟨⟨r, hr, rfl⟩, hne⟩
    exact ⟨r, ⟨hr, by simpa using hne⟩, rfl⟩

theorem deleteEdge_eq_false (h : deleteEdge xid s edgeId = (t, .ok false)) : t = s := by
  rcases deleteEdge_cases xid s edgeId with ⟨hr, -⟩ | ⟨e, he, hid, -, hr⟩
  · rw [h] at hr
    exact (Prod.mk.inj hr).1
  · rw [h] at hr
    cases hr

/-- An update that finds the edge and has the room rewrites it. -/
theorem accepts_of_updateEdgeProps (hids : DistinctEdgeIds s.edges) (h : updateEdgeProps be s edgeId propBytes = (t, .ok true))
    {e : EdgeItem} (he : e ∈ edgeItems s.edges) (hid : e.edgeId = edgeId) : e.accepts be propBytes = true := by
  by_cases hb : propInlineMax < propBytes.length
  · simp only [updateEdgeProps, hb, if_true] at h
    cases h
  cases hf : findEdgeById be s.edges edgeId with
  | none =>
    simp only [updateEdgeProps, hb, if_false, findVisibleEdge, hf, Option.map_none] at h
    cases h
  | some r =>
    obtain ⟨d, hd, hdid, hr⟩ := findEdgeById_eq_some hf
    cases hids.inj hd he (hdid.trans hid.symm)
    obtain ⟨page, hp, hpe⟩ := edgeAt_eq_some.mp (mem_edgeItems.mp he)
    obtain ⟨hi, -, -⟩ := Page.itemId_of_edgeAt hpe
    have hloc := (EdgeItem.record_fields (EdgeItem.read_eq_some.mp hr).2).2.2
    have hroom : (page.itemId e.loc.2).item.len - hdrSize - edgeFixedDataSize = e.data.length - edgeFixedDataSize := by
      rw [hi, Item.len]
      omega
    simp only [updateEdgeProps, hb, if_false, findVisibleEdge, hf, Option.map_some, hloc, hp, hroom] at h
    split at h
    · cases h
    · next ha => exact EdgeItem.accepts_iff.mpr ⟨Nat.not_lt.mp hb, Nat.not_lt.mp ha, by rw [hr]; rfl⟩

theorem updateEdgeProps_eq_false (h : updateEdgeProps be s edgeId propBytes = (t, .ok false)) : t = s := by
  simp only [updateEdgeProps] at h
  split at h
  · cases h
  · split at h
    · exact (Prod.mk.inj h).1.symm
    · split at h
      · cases h
      · split at h <;> cases h

/-- An update of properties puts the rewritten record in the place of the old one. -/
theorem hasEdge_updateEdgeProps {x : XactState} (hids : DistinctEdgeIds s.edges)
    (h : updateEdgeProps (x.backend xid) s edgeId propBytes = (t, .ok true)) {old : EdgeRecord}
    (hold : findEdgeById (x.backend xid) s.edges edgeId = some old) {row : EdgeRow} :
    HasEdge names t.edges row ↔ (HasEdge names s.edges row ∧ row.relId ≠ edgeId) ∨
      row = edgeRow names { old with propBytes := propBytes } := by
  obtain ⟨e, he, hid, hread⟩ := findEdgeById_eq_some hold
  have hacc := accepts_of_updateEdgeProps hids h he hid
  have hitems := edgeItems_updateEdgeProps x xid hids edgeId propBytes
  rw [h] at hitems
  have hrec : (e.setProps propBytes).record = some { old with propBytes := propBytes } :=
    (EdgeItem.read_eq_some.mp (EdgeItem.read_setProps hacc hread)).2
  have hafter : e.after x (.updateEdgeProps xid edgeId propBytes) = e.setProps propBytes := by
    simp only [EdgeItem.after, hid, hacc, and_self, if_true]
  have hother : ∀ d ∈ edgeItems s.edges, d.edgeId ≠ edgeId → d.after x (.updateEdgeProps xid edgeId propBytes) = d := by
    intro d _ hne
    simp only [EdgeItem.after, hne, false_and, if_false]
  have hundeleted : e.undeleted = true := by
    obtain ⟨d, hd, hu, hdrec⟩ := mem_liveRecords.mp (mem_liveRecords_of_find hold).1
    cases hids.inj hd he (((EdgeItem.record_fields hdrec).1.symm.trans (mem_liveRecords_of_find hold).2).trans hid.symm)
    exact hu
  simp only [HasEdge, mem_liveRecords, hitems, List.mem_map]
  constructor
  · rintro ⟨r, ⟨-, ⟨d, hd, rfl⟩, hu, hr⟩, rfl⟩
    by_cases hdid : d.edgeId = edgeId
    · cases hids.inj hd he (hdid.trans hid.symm)
      rw [hafter, hrec] at hr
      cases hr
      exact Or.inr rfl
    · rw [hother d hd hdid] at hu hr
      exact Or.inl ⟨⟨r, ⟨d, hd, hu, hr⟩, rfl⟩, by rwa [relId_edgeRow, (EdgeItem.record_fields hr).1]⟩
  · rintro (⟨⟨r, ⟨d, hd, hu, hr⟩, rfl⟩, hne⟩ | rfl)
    · rw [relId_edgeRow, (EdgeItem.record_fields hr).1] at hne
      exact ⟨r, ⟨d, ⟨d, hd, hother d hd hne⟩, hu, hr⟩, rfl⟩
    · exact ⟨_, ⟨_, ⟨e, he, hafter⟩, hundeleted, hrec⟩, rfl⟩

end EdgeCalls

end PgEddy
