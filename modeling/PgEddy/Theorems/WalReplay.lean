import PgEddy.Lemmas.GraphSteps
import PgEddy.Lemmas.Replays

/-!
# Replaying the log of a node page

`insert_node` sets the adjacency slot in the page after it has built the record it logs, so the replayed record keeps slot 0.
The other calls log what they write. Only a compaction, which logs the whole page, repairs the replayed records.
-/

namespace PgEddy

open Machine

/-- The properties are small enough to be inline, or the relation can take an overflow block and the block can take them. -/
def overflowFits (rel : Relation) (propBytes : Bytes) : Bool :=
  propBytes.length ≤ propInlineMax || (rel.length < maxBlocks && (pageInit 0).fits propBytes.length)

/-- A call on the node page, or a vacuum of the node relation. -/
inductive PageOp where
  | call (op : GraphOp)
  | compact (hz : VacuumHorizon)

namespace PageOp

/-- The store after a step; none when vacuum meets a slot outside the special area. -/
def step (pg : PgSys) (s : Store) : PageOp → Option Store
  | .call op => op.step pg s
  | .compact hz =>
    match vacuumNodes pg hz s with
    | (_, .error _) => none
    | (t, .ok _) => some t

/-- The record the step writes goes on the page, which is block 0. -/
def StaysOnPage (s : Store) : PageOp → Prop
  | .call (.insertNode _ _ labelIds propBytes) =>
    labelIds.length ≤ maxLabelsPerNode → findOrExtendPage s.nodes (insertSize labelIds propBytes) = .ok (s.nodes, 0)
  | .call (.updateNode xid cache nodeId labelIds propBytes) =>
    labelIds.length ≤ maxLabelsPerNode → propBytes.length ≤ propInlineMax →
      newVersionFits s xid cache nodeId labelIds propBytes = true
  | .call (.deleteNode ..) | .compact _ => True
  | .call (.insertEdge ..) | .call (.deleteEdge ..) => False

instance (s : Store) : DecidablePred (StaysOnPage s)
  | .call (.insertNode _ _ labelIds propBytes) =>
    inferInstanceAs (Decidable (labelIds.length ≤ maxLabelsPerNode →
      findOrExtendPage s.nodes (insertSize labelIds propBytes) = .ok (s.nodes, 0)))
  | .call (.updateNode xid cache nodeId labelIds propBytes) =>
    inferInstanceAs (Decidable (labelIds.length ≤ maxLabelsPerNode → propBytes.length ≤ propInlineMax →
      newVersionFits s xid cache nodeId labelIds propBytes = true))
  | .call (.deleteNode ..) | .compact _ => .isTrue trivial
  | .call (.insertEdge ..) | .call (.deleteEdge ..) => .isFalse (fun h => h)

/-- The step is an `insert_node`, with labels and properties that can be stored, on a page that already holds an item. -/
def losesSlot (s : Store) : PageOp → Bool
  | .call (.insertNode _ _ labelIds propBytes) =>
    labelIds.length ≤ maxLabelsPerNode && overflowFits s.nodes propBytes && (s.nodes[0]?).any (fun p => p.maxOffset ≠ 0)
  | _ => false

/-- The step is a vacuum that finds a dead record on the page. -/
def logsPage (s : Store) : PageOp → Bool
  | .compact hz => (s.nodes[0]?).any (fun p => deadOffsets hz true p ≠ [])
  | _ => false

end PageOp

/-- The machine, with a flag that tells whether a slot was lost and the page not logged since. -/
def lossStep (pg : PgSys) (st : Store × Bool) (op : PageOp) : Option (Store × Bool) :=
  (op.step pg st.1).map (fun t => (t, op.losesSlot st.1 || (st.2 && !op.logsPage st.1)))

/-- An initialised node page, and nothing logged since. -/
def pageStart : Store := ⟨[initNodePage], [], []⟩

/-- Every item of the replayed page agrees with the original in all fields readers use, its overflow block included. -/
def ReplayAgrees (nodes replayed : Relation) : Prop :=
  ∃ p q, nodes[0]? = some p ∧ replayed[0]? = some q ∧ q.maxOffset = p.maxOffset ∧
    (∀ off, (q.itemId off).fields = (p.itemId off).fields) ∧
    ∀ off f, (p.itemId off).fields = some f → f.overflowBlkno ≠ 0 →
      readOverflowBlock replayed f.overflowBlkno = readOverflowBlock nodes f.overflowBlkno

namespace WalReplayAux

/-- The store is a node page with blank blocks behind it, and replaying its log gives what recovery builds of it. -/
def Follows (pg : PgSys) (s : Store) (lost : Bool) : Prop :=
  ∃ p rest q rest', s.nodes = p :: rest ∧ replay pg [initNodePage] [] s.wal = .ok (q :: rest', []) ∧
    Recovered lost p rest q rest'

theorem agrees_iff {lost : Bool} {p q : Page} {rest rest' : Relation} (h : Recovered lost p rest q rest') :
    ReplayAgrees (p :: rest) (q :: rest') ↔ lost = false := by
  constructor
  · rintro ⟨_, _, hp, hq, -, hsame, -⟩
    cases hp
    cases hq
    by_contra hl
    obtain ⟨off, f, g, hf, hg, hne⟩ := h.differ (Bool.not_eq_false _ ▸ hl)
    rw [hsame, hf] at hg
    exact hne (congrArg _ (Option.some.inj hg))
  · intro hl
    refine ⟨p, q, rfl, rfl, h.count, h.same hl, fun off f hf hb => ?_⟩
    obtain ⟨image, h1, h2⟩ := h.overflow off f hf hb
    obtain ⟨b, hb⟩ := Nat.exists_eq_succ_of_ne_zero hb
    rw [hb] at h1 h2 ⊢
    simp only [Nat.succ_eq_add_one, Nat.add_sub_cancel] at h1 h2
    simp only [readOverflowBlock, readBuffer, Nat.succ_eq_add_one, List.getElem?_cons_succ, h1, h2]

theorem nodePages {lost : Bool} {p q : Page} {rest rest' : Relation} (h : Recovered lost p rest q rest') :
    NodePages (p :: rest) := by
  intro r hr
  rcases List.mem_cons.mp hr with rfl | hr
  · exact Or.inl h.nodePage
  · rcases h.blank r hr with rfl | ho
    · exact Or.inl isNodePage_init
    · exact Or.inr ho

/-- Versions are on the page only. -/
theorem blk_eq_zero {lost : Bool} {p q : Page} {rest rest' : Relation} (h : Recovered lost p rest q rest') {loc : Nat × Nat}
    {v : NodeVersion} (hv : versionAt (p :: rest) loc = some v) : loc.1 = 0 ∧ p.versionAt loc.2 = some v := by
  obtain ⟨r, hr, hrv⟩ := versionAt_eq_some.mp hv
  cases hb : loc.1 with
  | zero =>
    rw [hb] at hr
    cases hr
    exact ⟨rfl, hrv⟩
  | succ k =>
    rw [hb, List.getElem?_cons_succ] at hr
    rw [(h.blank r (List.mem_of_getElem? hr)).versionAt_eq_none] at hrv
    cases hrv

/-- The item `insert_node` leaves and the item it logs: they differ in the slot, unless the record is the first on the page. -/
theorem fields_inserted (xid : Xid) (nodeId : Int64) {slot : Nat} (labelIds : List Int32) (propBytes : Bytes)
    (ovfBlk blk off : Nat) (hslot : slot % 65536 = slot) :
    ∃ f, ItemId.fields ⟨.normal, .tuple (newVersion xid nodeId slot labelIds propBytes ovfBlk blk off).hdr
        (newVersion xid nodeId slot labelIds propBytes ovfBlk blk off).data⟩ = some f ∧
      f.overflowBlkno = ovfBlk % 4294967296 ∧
      ∃ g, ItemId.fields ⟨.normal, buildNodeItemBytesOvf xid nodeId 0 labelIds propBytes ovfBlk⟩ = some g ∧
        (slot = 0 → g = f) ∧ (slot ≠ 0 → f.adjSlotIdx ≠ g.adjSlotIdx) := by
  rw [buildNodeItemBytesOvf_eq, fields_tuple, fields_tuple]
  refine ⟨_, rfl, ?_, _, rfl, fun h => ?_, fun h => ?_⟩
  · simp only [newVersion, tupleFields, overflowOf_nodeData]
  · subst h
    simp only [newVersion, tupleFields, HeapTupleHeader.fresh]
  · simp only [newVersion, tupleFields, adjSlotOf_nodeData, hslot, Nat.zero_mod]
    exact h

/-- The item an update logs is the version it leaves. -/
theorem fields_updated (xid : Xid) (nodeId : Int64) (slot : Nat) (labelIds : List Int32) (propBytes : Bytes) (blk off : Nat) :
    ItemId.fields ⟨.normal, buildNodeItemBytes xid nodeId slot labelIds propBytes⟩ =
      ItemId.fields ⟨.normal, .tuple (newVersion xid nodeId slot labelIds propBytes 0 blk off).hdr
        (newVersion xid nodeId slot labelIds propBytes 0 blk off).data⟩ := by
  rw [buildNodeItemBytes, buildNodeItemBytesOvf_eq, fields_tuple, fields_tuple]
  simp only [newVersion, tupleFields, HeapTupleHeader.fresh]

/-- An overflow block is written exactly if it fits, or is not needed. -/
theorem writeOverflow_succeeds (pg : PgSys) (rel : Relation) (propBytes : Bytes) :
    (∃ r, (writeOverflow pg rel propBytes).2 = .ok r) ↔ overflowFits rel propBytes = true := by
  have hused : (pageInit 0).AllUsed := by intro i h; simp [pageInit] at h
  by_cases hi : propBytes.length ≤ propInlineMax
  · simp only [writeOverflow, overflowFits, hi, if_true, decide_true, Bool.true_or]
    exact iff_of_true ⟨_, rfl⟩ trivial
  simp only [writeOverflow, overflowFits, hi, if_false, decide_false, Bool.false_or, Bool.and_eq_true, decide_eq_true_eq]
  rcases extendRelation_cases rel (pageInit 0) with ⟨hlt, he⟩ | he
  · by_cases hfit : (pageInit 0).fits propBytes.length = true
    · have hadd := pg.add_fits (pageInit 0) (.raw propBytes) hused (Page.fits_iff.mp hfit)
      simp only [he, hadd]
      exact iff_of_true ⟨_, rfl⟩ ⟨hlt, hfit⟩
    · have hadd := pg.add_full (pageInit 0) (.raw propBytes) hused (fun h => hfit (Page.fits_iff.mpr h))
      simp only [he, hadd]
      exact iff_of_false (by simp) fun h => hfit h.2
  · have hfull : ¬rel.length < maxBlocks := by
      intro hlt
      rw [extendRelation, if_pos hlt] at he
      cases he
    simp only [he]
    exact iff_of_false (by simp) fun h => hfull h.1

/-- When the node page has room, `insert_node` succeeds exactly if the labels and the properties can be stored. -/
theorem insertNode_succeeds (pg : PgSys) (xid : Xid) {s : Store} (nodeId : Int64) {labelIds : List Int32} {propBytes : Bytes}
    (hn : NodePages s.nodes) {blk : Nat} (hstay : labelIds.length ≤ maxLabelsPerNode →
      findOrExtendPage s.nodes (insertSize labelIds propBytes) = .ok (s.nodes, blk)) :
    (∃ r, (insertNode pg xid s nodeId labelIds propBytes).2 = .ok r) ↔
      labelIds.length ≤ maxLabelsPerNode ∧ overflowFits s.nodes propBytes = true := by
  by_cases hl : maxLabelsPerNode < labelIds.length
  · simp only [insertNode, hl, if_true]
    exact iff_of_false (by simp) fun h => absurd hl (Nat.not_lt.mpr h.1)
  have hle := Nat.not_lt.mp hl
  obtain ⟨page, hp, hnp, hfit⟩ : ∃ page, s.nodes[blk]? = some page ∧ page.IsNodePage ∧
      page.fits (insertSize labelIds propBytes) = true := by
    rcases findOrExtendPage_cases hn (initNodePage_fits (insertSize_le propBytes hle)) with he | ⟨_, _, page, he, -, hrest⟩
    · cases he.symm.trans (hstay hle)
    · cases he.symm.trans (hstay hle)
      exact ⟨page, hrest⟩
  simp only [insertNode, hl, if_false, len_insertItem, hstay hle, hle, true_and]
  rw [← writeOverflow_succeeds pg]
  rcases writeOverflow_cases pg s.nodes propBytes with ⟨hi, hw⟩ | ⟨image, hi, -, himg, -, hw⟩ | ⟨rel', e, -, -, hw⟩
  · have hfit' : page.fits (42 + labelIds.length * 4 + propBytes.length) = true := by
      rwa [insertSize, if_neg (Nat.not_lt.mpr hi)] at hfit
    simp only [hw, addNodeItem_insert pg xid nodeId labelIds propBytes 0 hp hnp hfit']
    exact iff_of_true ⟨_, rfl⟩ ⟨_, rfl⟩
  · have hfit' : page.fits (42 + labelIds.length * 4 + ([] : Bytes).length) = true := by
      rwa [insertSize, if_pos hi] at hfit
    simp only [hw, addNodeItem_insert pg xid nodeId labelIds [] s.nodes.length
      ((Grows.concat (Or.inr himg)).getElem? hp) hnp hfit']
    exact iff_of_true ⟨_, rfl⟩ ⟨_, rfl⟩
  · simp only [hw]
    exact iff_of_false (by simp) (by simp)

section Steps

variable {pg : PgSys} {s t : Store} {lost : Bool}

theorem Follows.insert (h : Follows pg s lost) (xid : Xid) (nodeId : Int64) (labelIds : List Int32) (propBytes : Bytes)
    (hstay : labelIds.length ≤ maxLabelsPerNode →
      findOrExtendPage s.nodes (insertSize labelIds propBytes) = .ok (s.nodes, 0)) :
    Follows pg (insertNode pg xid s nodeId labelIds propBytes).1
      (PageOp.losesSlot s (.call (.insertNode xid nodeId labelIds propBytes)) || lost) := by
  obtain ⟨p, rest, q, rest', hnodes, hreplay, hr⟩ := h
  have hn : NodePages s.nodes := hnodes ▸ nodePages hr
  have hres := insertNode_result pg xid nodeId labelIds propBytes hn
  have hsucc := insertNode_succeeds pg xid nodeId hn hstay
  simp only [PageOp.losesSlot]
  generalize insertNode pg xid s nodeId labelIds propBytes = out at hres hsucc ⊢
  cases hres with
  | failed hg _ =>
    obtain ⟨ext, rfl, hblank⟩ := hg
    have hno : (decide (labelIds.length ≤ maxLabelsPerNode) && overflowFits s.nodes propBytes) = false := by
      rw [Bool.eq_false_iff]
      intro hyes
      obtain ⟨r, hr⟩ := hsucc.mpr (by simpa using hyes)
      cases hr
    rw [hno, Bool.false_and, Bool.false_or]
    exact ⟨p, rest ++ ext, q, rest', by rw [hnodes]; rfl, hreplay, hr.grow hblank⟩
  | @inserted rel₀ rel blk page inl ovf ovfBlk hl hpick hg hp hnp hfit hs =>
    rw [hstay hl] at hpick
    cases hpick
    rw [hnodes] at hp hs
    cases hp
    obtain ⟨f, hf, hfo, g, hgf, hsame, hdiff⟩ := fields_inserted xid nodeId labelIds inl ovfBlk 0 (p.maxOffset + 1)
      (hnp.maxOffset_lt hfit)
    have hlen : (buildNodeItemBytesOvf xid nodeId 0 labelIds inl ovfBlk).len = 42 + labelIds.length * 4 + inl.length :=
      len_buildNodeItem ..
    have hlen' : (Item.tuple (newVersion xid nodeId p.maxOffset labelIds inl ovfBlk 0 (p.maxOffset + 1)).hdr
        (newVersion xid nodeId p.maxOffset labelIds inl ovfBlk 0 (p.maxOffset + 1)).data).len =
        42 + labelIds.length * 4 + inl.length := by
      rw [Item.len, newVersion, length_nodeData, hdrSize]
      omega
    have hredo := redoInsert_head pg rest' hr.used (hr.fits _ ▸ hlen.symm ▸ hfit)
    rw [hr.count] at hredo
    have hyes : (decide (labelIds.length ≤ maxLabelsPerNode) && overflowFits s.nodes propBytes) = true := by
      simpa using hsucc.mp ⟨_, rfl⟩
    rw [hyes, Bool.true_and]
    simp only [hnodes, List.getElem?_cons_zero, Option.any_some]
    -- the page gets the record, and the replayed page the logged one; `rest` is where the overflow block may be
    have hpush : ∀ {rest rest' : Relation}, Recovered lost p rest q rest' →
        (ovfBlk ≠ 0 → ∃ image, rest[ovfBlk - 1]? = some image ∧ rest'[ovfBlk - 1]? = some image) → ovfBlk < 4294967296 →
        Recovered (decide (p.maxOffset ≠ 0) || lost)
          (p.push (.tuple (newVersion xid nodeId p.maxOffset labelIds inl ovfBlk 0 (p.maxOffset + 1)).hdr
            (newVersion xid nodeId p.maxOffset labelIds inl ovfBlk 0 (p.maxOffset + 1)).data)) rest
          (q.push (buildNodeItemBytesOvf xid nodeId 0 labelIds inl ovfBlk)) rest' := by
      intro rest rest' hr hovf hlt
      refine hr.push (hlen.trans hlen'.symm) (fun hc => ?_) (fun hc => ⟨f, g, hf, hgf, ?_⟩) fun f' hf' hb => ?_
      · rw [hf, hgf, hsame (by simpa using hc)]
      · exact hdiff (by simpa using hc)
      · cases hf.symm.trans hf'
        rw [hfo, Nat.mod_eq_of_lt hlt] at hb ⊢
        exact hovf hb
    cases hs with
    | inline _ =>
      refine ⟨_, rest, _, rest', rfl, replay_snoc hreplay ?_, hpush hr (by simp) (by decide)⟩
      simp only [rmgrRedo, redoNodeInsert, hredo]
      rfl
    | @overflow image _ hlt himg _ =>
      obtain ⟨himage, hr'⟩ := hr.restore himg
      refine ⟨_, rest ++ [image], _, restoreBlock rest' rest.length image, rfl, replay_snoc hreplay ?_,
        hpush hr' (fun _ => ?_) ?_⟩
      · simp only [rmgrRedo, redoNodeInsert, hredo]
        exact congrArg (fun r => Except.ok (r, ([] : Relation))) (restoreBlock_succ _ rest' rest.length image)
      · simp only [List.length_cons, Nat.add_sub_cancel]
        exact ⟨image, List.getElem?_concat_length .., himage⟩
      · simp only [maxBlocks] at hlt
        omega

theorem Follows.mark (h : Follows pg s lost) (xid : Xid) {nodeId : Int64} {blk off slot : Nat}
    (hl : Located s.nodes nodeId blk off slot) : Follows pg (deleteNodeAt xid s blk off) lost := by
  obtain ⟨p, rest, q, rest', hnodes, hreplay, hr⟩ := h
  obtain ⟨v, hv, -⟩ := hl
  obtain ⟨hblk, hpv⟩ := blk_eq_zero hr (hnodes ▸ hv)
  dsimp only at hblk hpv
  subst hblk
  obtain ⟨q', hredo, hr'⟩ := hr.setXmax hpv xid
  refine ⟨_, rest, q', rest', by rw [deleteNodeAt, Store.log, hnodes]; rfl, ?_, hr'⟩
  exact replay_snoc hreplay (by simp only [rmgrRedo, hredo])

theorem Follows.delete (h : Follows pg s lost) (xid : Xid) (cache : LocationCache) (nodeId : Int64) :
    Follows pg (deleteNodeById xid cache s nodeId).1 lost := by
  obtain ⟨p, rest, q, rest', hnodes, -, hr⟩ := id h
  rcases deleteNodeById_cases xid cache nodeId (hnodes ▸ nodePages hr) with ⟨r, hres, -⟩ | ⟨blk, off, slot, hl, hres⟩
  · rw [hres]
    exact h
  · rw [hres]
    exact h.mark xid hl

theorem Follows.update (h : Follows pg s lost) (xid : Xid) (cache : LocationCache) (nodeId : Int64) (labelIds : List Int32)
    (propBytes : Bytes) (hstay : labelIds.length ≤ maxLabelsPerNode → propBytes.length ≤ propInlineMax →
      newVersionFits s xid cache nodeId labelIds propBytes = true) :
    Follows pg (updateNode pg xid cache s nodeId labelIds propBytes).1 lost := by
  have hf := h
  obtain ⟨p, rest, q, rest', hnodes, hreplay, hr⟩ := h
  have hn : NodePages s.nodes := hnodes ▸ nodePages hr
  rcases updateNode_cases pg xid cache nodeId labelIds propBytes hn with
    ⟨r, hres, -⟩ | ⟨blk, off, slot, hl, hb, hfind, hloc, hres⟩
  · rw [hres]
    exact hf
  obtain ⟨v, hv, -⟩ := id hloc
  obtain ⟨hblk, hpv⟩ := blk_eq_zero hr (hnodes ▸ hv)
  dsimp only at hblk hpv
  subst hblk
  have hp : s.nodes[0]? = some p := by rw [hnodes]; rfl
  have hfit : p.fits (42 + labelIds.length * 4 + propBytes.length) = true := by
    have := hstay hl hb
    simpa [newVersionFits, hfind, hp, buildNodeItemBytes] using this
  have hupd := updateNodeAt_result pg xid nodeId slot hn hl hb hp hpv
  rw [hres]
  generalize updateNodeAt pg xid s nodeId labelIds propBytes 0 off slot = out at hupd ⊢
  cases hupd with
  | moved hf _ _ _ _ => rw [hfit] at hf; cases hf
  | failed hf _ _ => rw [hfit] at hf; cases hf
  | stayed _ =>
    obtain ⟨q', hredo, hr'⟩ := hr.setXmax hpv xid
    have hlen : (buildNodeItemBytes xid nodeId slot labelIds propBytes).len = 42 + labelIds.length * 4 + propBytes.length :=
      len_buildNodeItem ..
    have hlen' : (Item.tuple (newVersion xid nodeId slot labelIds propBytes 0 0 (p.maxOffset + 1)).hdr
        (newVersion xid nodeId slot labelIds propBytes 0 0 (p.maxOffset + 1)).data).len =
        42 + labelIds.length * 4 + propBytes.length := by
      rw [Item.len, newVersion, length_nodeData, hdrSize]
      omega
    have hfit' : q'.fits (buildNodeItemBytes xid nodeId slot labelIds propBytes).len = true := by
      rw [hlen, hr'.fits]
      have hcount : (p.modifyItem off (Item.mapHdr (·.setXmax xid))).linp.length = p.linp.length :=
        Page.maxOffset_modifyItem ..
      rw [Page.fits_iff, Page.pdLower] at hfit ⊢
      rw [hcount]
      exact hfit
    have hpush : Recovered (false || lost) _ rest _ rest' := hr'.push (hlen.trans hlen'.symm)
      (fun _ => fields_updated xid nodeId slot labelIds propBytes 0 (p.maxOffset + 1)) (fun hc => by cases hc)
      (fun f hf hb => ?_)
    · have hins := redoInsert_head pg rest' hr'.used hfit'
      rw [hr'.count, Page.maxOffset_modifyItem] at hins
      refine ⟨_, rest, _, rest', by rw [hnodes]; rfl, ?_, hpush⟩
      have hdelete : rmgrRedo pg (q :: rest') [] (.nodeDelete 0 off xid) = .ok (q' :: rest', []) := by
        simp only [rmgrRedo, hredo]
      refine replay_snoc (replay_snoc hreplay hdelete) ?_
      simp only [rmgrRedo, redoNodeInsert, hins]
      rfl
    · -- an updated record has no overflow block
      rw [fields_tuple] at hf
      obtain rfl := Option.some.inj hf
      simp only [newVersion, tupleFields, overflowOf_nodeData, Nat.zero_mod] at hb
      exact absurd rfl hb

/-- Vacuum either finds nothing, or leaves a compacted page and logs it whole. -/
theorem Follows.compact (h : Follows pg s lost) (hz : VacuumHorizon) (hstep : PageOp.step pg s (.compact hz) = some t) :
    Follows pg t (lost && !PageOp.logsPage s (.compact hz)) := by
  obtain ⟨p, rest, q, rest', hnodes, hreplay, hr⟩ := h
  obtain ⟨stats', hrest⟩ := vacuumBlocks_blank pg hz rest 1 hr.blank
  simp only [PageOp.step, vacuumNodes, vacuumRelation, hnodes, blocks, List.zipIdx_cons] at hstep
  simp only [PageOp.logsPage, hnodes, List.getElem?_cons_zero, Option.any_some]
  rcases vacuumBlock_node pg hz hr.nodePage 0 with ⟨-, p', stats, hv, hsame, hvac⟩ | ⟨-, hv⟩
  · rw [vacuumBlocks_cons hv, hrest] at hstep
    cases hstep
    by_cases hd : deadOffsets hz true p = []
    · rw [if_pos hd, hsame hd]
      refine ⟨p, rest, q, rest', rfl, by simpa using hreplay, by simpa [hd] using hr⟩
    · rw [if_neg hd]
      refine ⟨p', rest, p', rest', rfl, ?_, by simpa [hd] using hr.compact hvac⟩
      rw [List.append_nil]
      exact replay_snoc hreplay (by simp only [rmgrRedo, restoreBlock_head])
  · simp only [vacuumBlocks, hv] at hstep
    cases hstep

/-- Every step keeps the replayed page in step, and the flag true to the records that lost their slot. -/
theorem Follows.step (h : Follows pg s lost) {op : PageOp} (hstay : op.StaysOnPage s)
    (hstep : op.step pg s = some t) : Follows pg t (op.losesSlot s || (lost && !op.logsPage s)) := by
  match op with
  | .compact hz => simpa only [PageOp.losesSlot, Bool.false_or] using h.compact hz hstep
  | .call (.insertNode xid nodeId labelIds propBytes) =>
    have hins := h.insert xid nodeId labelIds propBytes hstay
    have hlog : PageOp.logsPage s (.call (.insertNode xid nodeId labelIds propBytes)) = false := rfl
    rw [GraphOp.step_eq hstep, hlog, Bool.not_false, Bool.and_true]
    exact hins
  | .call (.updateNode xid cache nodeId labelIds propBytes) =>
    have hkeep : (PageOp.losesSlot s (.call (.updateNode xid cache nodeId labelIds propBytes)) || (lost && !false)) = lost := by
      cases lost <;> rfl
    rw [GraphOp.step_eq hstep]
    exact hkeep.symm ▸ h.update xid cache nodeId labelIds propBytes hstay
  | .call (.deleteNode xid cache nodeId) =>
    have hkeep : (PageOp.losesSlot s (.call (.deleteNode xid cache nodeId)) || (lost && !false)) = lost := by
      cases lost <;> rfl
    rw [GraphOp.step_eq hstep]
    exact hkeep.symm ▸ h.delete xid cache nodeId
  | .call (.insertEdge ..) => exact hstay.elim
  | .call (.deleteEdge ..) => exact hstay.elim

end Steps

end WalReplayAux

open WalReplayAux

/-- For every run on a node page: recovery succeeds, and what it rebuilds agrees with the page exactly if, since the start or
the last vacuum that found a dead record, no `insert_node` has put a record behind another one. -/
theorem replay_agrees_iff (pg : PgSys) {ops : List PageOp} {t : Store} {lost : Bool}
    (hstay : EveryCall (lossStep pg) (fun st op => op.StaysOnPage st.1) (pageStart, false) ops)
    (hrun : run (lossStep pg) (pageStart, false) ops = some (t, lost)) :
    ∃ nodes edges, replay pg [initNodePage] [] t.wal = .ok (nodes, edges) ∧ (ReplayAgrees t.nodes nodes ↔ lost = false) := by
  have hinv : ∀ st op st', WalReplayAux.Follows pg st.1 st.2 → PageOp.StaysOnPage st.1 op → lossStep pg st op = some st' →
      WalReplayAux.Follows pg st'.1 st'.2 := by
    intro st op st' h hs hst
    obtain ⟨u, hu, rfl⟩ := Option.map_eq_some_iff.mp hst
    exact h.step hs hu
  have hstart : WalReplayAux.Follows pg pageStart false := ⟨initNodePage, [], initNodePage, [], rfl, rfl, Recovered.start⟩
  obtain ⟨p, rest, q, rest', hnodes, hreplay, hr⟩ :=
    run_invariant (I := fun st => WalReplayAux.Follows pg st.1 st.2) hinv hstart hstay hrun
  refine ⟨q :: rest', [], hreplay, ?_⟩
  rw [hnodes]
  exact agrees_iff hr

/-- A page with two nodes, of which the first is changed and then deleted, and a vacuum that removes its versions. -/
def compactedRun : List PageOp :=
  [.call (.insertNode 3 1 [] [7]), .call (.insertNode 3 2 [5] []), .call (.updateNode 4 .empty 1 [] [8]),
    .call (.deleteNode 5 .empty 1), .compact ⟨6, fun _ => true⟩]

theorem replay_agrees_iff_compacted_run :
    ∃ t nodes edges, run (lossStep postgres) (pageStart, false) compactedRun = some (t, false) ∧
      replay postgres [initNodePage] [] t.wal = .ok (nodes, edges) ∧ ReplayAgrees t.nodes nodes := by
  have hstay : EveryCall (lossStep postgres) (fun st op => op.StaysOnPage st.1) (pageStart, false) compactedRun := by
    decide +kernel
  have hend : (run (lossStep postgres) (pageStart, false) compactedRun).any (fun st => st.2 == false) = true := by
    decide +kernel
  obtain ⟨⟨t, lost⟩, hrun, hlost⟩ := (Option.any_eq_true _ _).mp hend
  obtain rfl : lost = false := by simpa using hlost
  obtain ⟨nodes, edges, hreplay, hiff⟩ := replay_agrees_iff postgres hstay hrun
  exact ⟨t, nodes, edges, hrun, hreplay, hiff.mpr rfl⟩

/-- Two nodes on the page: the second one has slot 1. -/
def twoInserts : List PageOp := [.call (.insertNode 3 1 [] []), .call (.insertNode 3 2 [] [])]

/-- The second node is replayed with slot 0, the slot of the first one. -/
theorem replayed_node_takes_first_slot :
    EveryCall (lossStep postgres) (fun st op => op.StaysOnPage st.1) (pageStart, false) twoInserts ∧
      ∃ t lost nodes edges, run (lossStep postgres) (pageStart, false) twoInserts = some (t, lost) ∧
        replay postgres [initNodePage] [] t.wal = .ok (nodes, edges) ∧ ¬ReplayAgrees t.nodes nodes := by
  refine ⟨by decide +kernel, ?_⟩
  have hend : (run (lossStep postgres) (pageStart, false) twoInserts).any (fun st =>
      match replay postgres [initNodePage] [] st.1.wal with
      | .error _ => false
      | .ok (nodes, _) =>
        decide (nodes[0]?.map (fun q => (q.itemId 2).fields) ≠ st.1.nodes[0]?.map (fun p => (p.itemId 2).fields))) = true := by
    decide +kernel
  obtain ⟨⟨t, lost⟩, hrun, hne⟩ := (Option.any_eq_true _ _).mp hend
  split at hne
  · cases hne
  · next nodes edges hreplay =>
    refine ⟨t, lost, nodes, edges, hrun, hreplay, fun hagree => ?_⟩
    obtain ⟨p, q, hp, hq, -, hsame, -⟩ := hagree
    simp [hp, hq, hsame] at hne

end PgEddy
