import PgEddy.History
import PgEddy.Lemmas.GraphSteps

/-!
# What holds along a history

A transaction that has ended keeps its status. So the `xmin` check of a reader with a snapshot comes down to one question: is the
inserter the reader itself, or had it committed when the snapshot was taken.
-/

namespace PgEddy

open Machine

/-! ## Transactions -/

/-- A later moment of a history: what has ended stays as it ended. -/
structure XactState.Later (x y : XactState) : Prop where
  nextXid : x.nextXid ≤ y.nextXid
  status : ∀ t, 3 ≤ t → t < x.nextXid → x.status t ≠ .inProgress → y.status t = x.status t

theorem XactState.Later.refl (x : XactState) : x.Later x := ⟨Nat.le_refl _, fun _ _ _ _ => rfl⟩

theorem XactState.Later.trans {x y z : XactState} (h : x.Later y) (h' : y.Later z) : x.Later z where
  nextXid := Nat.le_trans h.nextXid h'.nextXid
  status := by
    intro t h3 hlt hs
    have hy := h.status t h3 hlt hs
    rw [h'.status t h3 (Nat.lt_of_lt_of_le hlt h.nextXid) (by rw [hy]; exact hs), hy]

theorem XactState.later_begin (x : XactState) : x.Later x.begin where
  nextXid := Nat.le_succ _
  status := by
    intro t _ hlt _
    simp only [XactState.begin, if_neg (Nat.ne_of_lt hlt)]

theorem XactState.running_iff {x : XactState} {xid : Xid} :
    x.running xid = true ↔ 3 ≤ xid ∧ xid < x.nextXid ∧ x.status xid = .inProgress := by
  simp [XactState.running, and_assoc]

theorem XactState.later_finish {x : XactState} {xid : Xid} (hr : x.running xid = true) (st : XactStatus) :
    x.Later (x.finish xid st) where
  nextXid := Nat.le_refl _
  status := by
    intro t _ _ hs
    have hne : t ≠ xid := by
      rintro rfl
      exact hs (XactState.running_iff.mp hr).2.2
    simp only [XactState.finish, if_neg hne]

/-- The transaction is the reader's own or has committed by this moment. -/
def XactState.seenBy (x : XactState) (me xid : Xid) : Bool := (x.backend me).isCurrent xid || (x.backend me).didCommit xid

theorem XactState.didCommit_iff {x : XactState} {me xid : Xid} :
    (x.backend me).didCommit xid = true ↔ 3 ≤ xid ∧ xid < x.nextXid ∧ x.status xid = .committed := by
  simp [XactState.backend, and_assoc]

theorem XactState.mem_snapshot_iff {x : XactState} {me xid : Xid} :
    xidInMVCCSnapshot xid (x.snapshot me) = true ↔ x.nextXid ≤ xid ∨ (x.running xid = true ∧ xid ≠ me) := by
  simp only [xidInMVCCSnapshot, XactState.snapshot, Bool.or_eq_true, List.contains_eq_mem, decide_eq_true_iff,
    List.mem_filter, List.mem_range, Bool.and_eq_true, bne_iff_ne]
  constructor
  · rintro (h | ⟨-, h⟩)
    · exact Or.inl (of_decide_eq_true h)
    · exact Or.inr h
  · rintro (h | h)
    · exact Or.inl (decide_eq_true h)
    · exact Or.inr ⟨(XactState.running_iff.mp h.1).2.1, h⟩

/-- Committed by now and not in the snapshot is committed when the snapshot was taken. -/
theorem XactState.Later.committed_iff {x y : XactState} (h : x.Later y) {me xid : Xid} (hne : xid ≠ me) :
    (y.backend me).didCommit xid = true ∧ xidInMVCCSnapshot xid (x.snapshot me) = false ↔
      (x.backend me).didCommit xid = true := by
  rw [← Bool.not_eq_true, XactState.mem_snapshot_iff, XactState.didCommit_iff, XactState.didCommit_iff]
  constructor
  · rintro ⟨⟨h3, -, hc⟩, hn⟩
    have hlt : xid < x.nextXid := by
      by_contra hge
      exact hn (Or.inl (Nat.le_of_not_lt hge))
    have hst : x.status xid ≠ .inProgress := fun hip => hn (Or.inr ⟨XactState.running_iff.mpr ⟨h3, hlt, hip⟩, hne⟩)
    exact ⟨h3, hlt, (h.status xid h3 hlt hst).symm.trans hc⟩
  · rintro ⟨h3, hlt, hc⟩
    refine ⟨⟨h3, Nat.lt_of_lt_of_le hlt h.nextXid, ?_⟩, ?_⟩
    · rw [h.status xid h3 hlt (by rw [hc]; simp), hc]
    · rintro (hge | ⟨hr, -⟩)
      · exact absurd hlt (Nat.not_lt.mpr hge)
      · rw [(XactState.running_iff.mp hr).2.2] at hc
        cases hc

/-- The `xmin` check of a reader whose snapshot is from an earlier moment, on a header without hint bits. -/
theorem XactState.Later.xminVisible_eq {x y : XactState} (h : x.Later y) (me : Xid) {hdr : HeapTupleHeader}
    (hc : hdr.xminCommitted = false) (hi : hdr.xminInvalid = false) (h3 : 3 ≤ hdr.xmin) :
    xminVisible (y.backend me) (some (x.snapshot me)) hdr = x.seenBy me hdr.xmin := by
  have h0 : ¬hdr.xmin = invalidTransactionId := Nat.ne_of_gt (Nat.lt_of_lt_of_le (by decide) h3)
  simp only [xminVisible, hc, hi, Bool.false_eq_true, if_false, h0, XactState.seenBy]
  by_cases hme : hdr.xmin = me
  · simp [Backend.isCurrent, XactState.backend, hme]
  · have hcur : ∀ z : XactState, (z.backend me).isCurrent hdr.xmin = false := by
      intro z
      simp [Backend.isCurrent, XactState.backend, hme]
    simp only [hcur, Bool.false_eq_true, if_false, Bool.false_or]
    rw [Bool.eq_iff_iff, ← h.committed_iff hme]
    cases (y.backend me).didCommit hdr.xmin <;> simp

/-! ## Versions of a history -/

/-- What every version written by a transaction is like: no hint bits, a normal inserter, a record that decodes, and an
overflow block that exists if there is one. -/
structure NodeVersion.Stored (nodes : Relation) (v : NodeVersion) : Prop where
  notCommitted : v.hdr.xminCommitted = false
  notInvalid : v.hdr.xminInvalid = false
  normal : 3 ≤ v.hdr.xmin
  decodes : (decodeNode v.data).isSome
  overflow : overflowOf v.data = 0 ∨ overflowOf v.data < nodes.length

theorem NodeVersion.Stored.mono {nodes nodes' : Relation} {v : NodeVersion} (h : v.Stored nodes)
    (hl : nodes.length ≤ nodes'.length) : v.Stored nodes' where
  notCommitted := h.notCommitted
  notInvalid := h.notInvalid
  normal := h.normal
  decodes := h.decodes
  overflow := h.overflow.imp_right fun hlt => Nat.lt_of_lt_of_le hlt hl

theorem NodeVersion.Stored.setXmax {nodes : Relation} {v : NodeVersion} (h : v.Stored nodes) (xid : Xid) :
    (v.setXmax xid).Stored nodes := ⟨h.notCommitted, h.notInvalid, h.normal, h.decodes, h.overflow⟩

theorem stored_newVersion {nodes : Relation} {xid : Xid} {nodeId : Int64} {slot : Nat} {labelIds : List Int32}
    {propBytes : Bytes} {ovfBlk blk off : Nat} (hx : 3 ≤ xid) (hl : WithinLimits labelIds propBytes) (ho : ovfBlk < maxBlocks)
    (hlen : ovfBlk = 0 ∨ ovfBlk < nodes.length) :
    (newVersion xid nodeId slot labelIds propBytes ovfBlk blk off).Stored nodes where
  notCommitted := rfl
  notInvalid := rfl
  normal := hx
  decodes := by
    rw [newVersion, decodeNode_nodeData _ _ _ _ _ hl.1 hl.2 (Nat.le_of_lt ho)]
    rfl
  overflow := by
    have hmod : ovfBlk % 4294967296 = ovfBlk := Nat.mod_eq_of_lt (by simp only [maxBlocks] at ho; omega)
    rw [newVersion, overflowOf_nodeData, hmod]
    exact hlen

/-- Every version of a relation is one a transaction wrote. -/
def AllStored (nodes : Relation) : Prop := ∀ loc v, versionAt nodes loc = some v → v.Stored nodes

theorem AllStored.grows {nodes nodes' : Relation} (h : AllStored nodes) (hg : Grows nodes nodes') : AllStored nodes' :=
  fun loc v hv => (h loc v (hg.versionAt loc ▸ hv)).mono hg.length_le

theorem AllStored.setXmaxAt {nodes : Relation} (h : AllStored nodes) {blk off : Nat} {v : NodeVersion} (xid : Xid)
    (hv : versionAt nodes (blk, off) = some v) : AllStored (setXmaxAt nodes blk off xid) := by
  intro loc w hw
  rw [versionAt_setXmaxAt hv] at hw
  refine NodeVersion.Stored.mono ?_ (Nat.le_of_eq length_setXmaxAt.symm)
  split at hw
  · cases hw
    exact (h _ v hv).setXmax xid
  · exact h loc w hw

theorem AllStored.pushAt {nodes : Relation} (h : AllStored nodes) {blk : Nat} {page : Page} {v : NodeVersion}
    (hp : nodes[blk]? = some page) (hl : nodeFixedDataSize ≤ v.data.length) (hv : v.Stored nodes) :
    AllStored (pushAt nodes blk v) := by
  intro loc w hw
  rw [versionAt_pushAt hp hl] at hw
  refine NodeVersion.Stored.mono ?_ (Nat.le_of_eq length_pushAt.symm)
  split at hw
  · cases hw; exact hv
  · exact h loc w hw

theorem AllStored.effect {s t : Store} {op : GraphOp} (h : AllStored s.nodes) (hx : 3 ≤ op.xid) (he : op.Effect s t) :
    AllStored t.nodes := by
  cases he with
  | grown hg _ => exact h.grows hg
  | inserted hg hp _ _ _ hl ho hlen hnodes _ =>
    exact hnodes ▸ (h.grows hg).pushAt hp (length_newVersion ..) (stored_newVersion hx hl ho hlen)
  | updated hloc hg hp _ _ hl hnodes _ =>
    obtain ⟨v, hv, -⟩ := hloc
    exact hnodes ▸ ((h.setXmaxAt _ hv).grows hg).pushAt hp (length_newVersion ..)
      (stored_newVersion hx hl (by decide) (Or.inl rfl))
  | marked hloc hnodes _ =>
    obtain ⟨v, hv, -⟩ := hloc
    exact hnodes ▸ h.setXmaxAt _ hv
  | linked _ _ _ _ _ hnodes _ _ =>
    intro loc v hv
    rw [hnodes, versionAt_pushHeads] at hv
    refine (h loc v hv).mono (Nat.le_of_eq ?_)
    rw [hnodes, pushHeads, length_writeAdjHeaderAt, length_writeAdjHeaderAt]
  | edgeMarked _ _ _ hnodes _ => exact hnodes ▸ h

/-! ## Steps of a history -/

/-- The ids a step hands out are new. -/
def HistoryOp.Fresh (h : HistoryState) : HistoryOp → Prop
  | .call op => op.Fresh h.store
  | _ => True

instance (h : HistoryState) : DecidablePred (HistoryOp.Fresh h)
  | .call op => inferInstanceAs (Decidable (op.Fresh h.store))
  | .begin | .commit _ | .abort _ | .updateEdgeProps .. => .isTrue trivial

/-- The id that a new node gets is new. -/
def HistoryOp.FreshNode (h : HistoryState) : HistoryOp → Prop
  | .call op => op.FreshNode h.store
  | _ => True

theorem HistoryOp.Fresh.node {h : HistoryState} {op : HistoryOp} (hf : op.Fresh h) : op.FreshNode h := by
  cases op with
  | call => exact GraphOp.Fresh.node hf
  | begin | commit | abort | updateEdgeProps => trivial

/-- `update_edge_props` changes nothing, or rewrites the properties of one item. -/
theorem updateEdgeProps_cases (be : Backend) (s : Store) (edgeId : Int64) (newPropBytes : Bytes) :
    (updateEdgeProps be s edgeId newPropBytes).1 = s ∨
      ∃ blk off page, newPropBytes.length ≤ propInlineMax ∧ findVisibleEdge be s.edges edgeId = some (blk, off) ∧
        s.edges[blk]? = some page ∧ newPropBytes.length ≤ (page.itemId off).item.len - hdrSize - edgeFixedDataSize ∧
        updateEdgeProps be s edgeId newPropBytes =
          ({ s with edges := modifyBlock s.edges blk (fun p =>
              p.modifyItem off (Item.mapData (writeEdgeProps newPropBytes))) }, .ok true) := by
  by_cases hb : propInlineMax < newPropBytes.length
  · exact Or.inl (by simp only [updateEdgeProps, hb, if_true])
  cases hf : findVisibleEdge be s.edges edgeId with
  | none => exact Or.inl (by simp only [updateEdgeProps, hb, if_false, hf])
  | some l =>
    obtain ⟨blk, off⟩ := l
    cases hp : s.edges[blk]? with
    | none => exact Or.inl (by simp only [updateEdgeProps, hb, if_false, hf, hp])
    | some page =>
      by_cases ha : (page.itemId off).item.len - hdrSize - edgeFixedDataSize < newPropBytes.length
      · exact Or.inl (by simp only [updateEdgeProps, hb, if_false, hf, hp, ha, if_true])
      · exact Or.inr ⟨blk, off, page, Nat.not_lt.mp hb, rfl, hp, Nat.not_lt.mp ha,
          by simp only [updateEdgeProps, hb, if_false, hf, hp, ha]⟩

theorem EdgePages.modifyItem {rel : Relation} (h : EdgePages rel) (blk off : Nat) (f : Item → Item) :
    EdgePages (modifyBlock rel blk (fun p => p.modifyItem off f)) where
  pages := by
    intro p hp
    rcases mem_modifyBlock hp with hp | ⟨q, hq, rfl⟩
    · exact h.pages p hp
    · exact (h.pages q (List.mem_of_getElem? hq)).modifyItem _ _
  blocks := by rw [length_modifyBlock]; exact h.blocks

/-- Everything a step of a history can do: begin or end a transaction, let a running transaction call the graph store, or
rewrite the properties of one edge. -/
inductive HistoryStep (h h' : HistoryState) : HistoryOp → Prop where
  | xact {op : HistoryOp} : h.xact.Later h'.xact → h'.store = h.store → HistoryStep h h' op
  | call {op : GraphOp} : h.xact.running op.xid = true → h'.xact = h.xact → op.Effect h.store h'.store →
      HistoryStep h h' (.call op)
  | props {xid : Xid} {edgeId : Int64} {newPropBytes : Bytes} {blk off : Nat} {page : Page} :
      h.xact.running xid = true → h'.xact = h.xact → newPropBytes.length ≤ propInlineMax →
      findVisibleEdge (h.xact.backend xid) h.store.edges edgeId = some (blk, off) → h.store.edges[blk]? = some page →
      newPropBytes.length ≤ (page.itemId off).item.len - hdrSize - edgeFixedDataSize →
      h'.store = { h.store with edges := modifyBlock h.store.edges blk (fun p =>
        p.modifyItem off (Item.mapData (writeEdgeProps newPropBytes))) } →
      HistoryStep h h' (.updateEdgeProps xid edgeId newPropBytes)

theorem HistoryState.step_cases {pg : PgSys} {h h' : HistoryState} {op : HistoryOp} (hw : WellFormed h.store)
    (ht : h.step pg op = some h') : HistoryStep h h' op := by
  cases op with
  | begin =>
    cases ht
    exact .xact (XactState.later_begin _) rfl
  | commit xid =>
    simp only [HistoryState.step] at ht
    split at ht
    · next hr => cases ht; exact .xact (XactState.later_finish hr _) rfl
    · cases ht
  | abort xid =>
    simp only [HistoryState.step] at ht
    split at ht
    · next hr => cases ht; exact .xact (XactState.later_finish hr _) rfl
    · cases ht
  | call op =>
    simp only [HistoryState.step] at ht
    split at ht
    · next hr =>
      obtain ⟨t, hs, rfl⟩ := Option.map_eq_some_iff.mp ht
      exact .call hr rfl (GraphOp.effect hw hs)
    · cases ht
  | updateEdgeProps xid edgeId newPropBytes =>
    simp only [HistoryState.step] at ht
    split at ht
    · next hr =>
      cases ht
      rcases updateEdgeProps_cases (h.xact.backend xid) h.store edgeId newPropBytes with
        hs | ⟨blk, off, page, hl, hf, hp, hroom, hs⟩
      · exact .xact (XactState.Later.refl _) hs
      · exact .props hr rfl hl hf hp hroom (by rw [hs])
    · cases ht

theorem HistoryStep.later {h h' : HistoryState} {op : HistoryOp} (hs : HistoryStep h h' op) : h.xact.Later h'.xact := by
  cases hs with
  | xact hl _ => exact hl
  | call _ hx _ => exact hx ▸ XactState.Later.refl _
  | props _ hx _ _ _ _ _ => exact hx ▸ XactState.Later.refl _

theorem HistoryStep.wellFormed {h h' : HistoryState} {op : HistoryOp} (hs : HistoryStep h h' op) (hw : WellFormed h.store) :
    WellFormed h'.store := by
  cases hs with
  | xact _ hst => exact hst ▸ hw
  | call _ _ he => exact hw.effect he
  | props _ _ _ _ _ _ hst => exact hst ▸ ⟨hw.nodePages, hw.edgePages.modifyItem _ _ _⟩

/-- A run of a history goes forward in time. -/
theorem HistoryState.later_of_run {pg : PgSys} :
    ∀ {ops : List HistoryOp} {h h' : HistoryState}, WellFormed h.store → run (HistoryState.step pg) h ops = some h' →
      h.xact.Later h'.xact
  | [], _, _, _, hr => by cases hr; exact XactState.Later.refl _
  | _ :: _, _, _, hw, hr => by
    obtain ⟨u, hu, hur⟩ := run_cons.mp hr
    have hs := HistoryState.step_cases hw hu
    exact hs.later.trans (HistoryState.later_of_run (hs.wellFormed hw) hur)

/-- What holds in every state of a history with fresh ids. -/
structure HistoryInv (h : HistoryState) : Prop where
  sound : Sound h.store
  stored : AllStored h.store.nodes

theorem historyInv_start : HistoryInv (HistoryState.start Store.empty) where
  sound := sound_empty
  stored := by
    intro loc v hv
    simp [HistoryState.start, versionAt, Store.empty] at hv

theorem HistoryInv.step {h h' : HistoryState} {op : HistoryOp} (hi : HistoryInv h) (hf : op.FreshNode h)
    (hs : HistoryStep h h' op) : HistoryInv h' := by
  cases hs with
  | xact _ hst => exact ⟨hst ▸ hi.sound, hst ▸ hi.stored⟩
  | call hr _ he =>
    exact ⟨⟨hi.sound.toWellFormed.effect he, hi.sound.unique.effect hi.sound.toWellFormed hf he⟩,
      hi.stored.effect (XactState.running_iff.mp hr).1 he⟩
  | props _ _ _ _ _ _ hst =>
    refine ⟨⟨⟨?_, ?_⟩, ?_⟩, ?_⟩ <;> rw [hst]
    · exact hi.sound.nodePages
    · exact hi.sound.edgePages.modifyItem _ _ _
    · exact hi.sound.unique
    · exact hi.stored

end PgEddy
