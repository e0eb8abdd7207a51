import PgEddy.Lemmas.EdgeItems
import PgEddy.Lemmas.NodeOps

/-!
# What the calls of the edge store do

`insert_edge` adds one item at the end of the edge relation and rewrites two headers, or one for a self-loop; `delete_edge` sets
the deleter of one item. One lemma for each call says everything it can do, in terms of the list of edge items and of the
headers.
-/

namespace PgEddy

open ByteBuffer PagedStore

/-! ## Headers written -/

/-- The two adjacent headers of an edge are written one after the other. -/
theorem headerAt_writeAdjHeaderAt {rel : Relation} {blk idx : Nat} {old : NodeAdjHeader} (hdr : NodeAdjHeader)
    (h : headerAt rel (blk, idx) = some old) (loc : Nat × Nat) :
    headerAt (writeAdjHeaderAt rel blk idx hdr) loc = if loc = (blk, idx) then some hdr else headerAt rel loc := by
  obtain ⟨p, hp, hr⟩ := headerAt_eq_some.mp h
  obtain ⟨b, i⟩ := loc
  dsimp only at hp hr
  simp only [headerAt, writeAdjHeaderAt, getElem?_modifyBlock, Prod.mk.injEq]
  by_cases hb : b = blk
  · subst hb
    simp only [if_true, hp, Option.map_some, Option.bind_some, true_and]
    exact readAdjHeader_writeAdjHeader p idx i hdr (by rw [hr]; rfl)
  · simp only [hb, if_false, false_and]

@[simp] theorem versionAt_writeAdjHeaderAt (rel : Relation) (blk idx : Nat) (hdr : NodeAdjHeader) (loc : Nat × Nat) :
    versionAt (writeAdjHeaderAt rel blk idx hdr) loc = versionAt rel loc := by
  simp only [versionAt, writeAdjHeaderAt, getElem?_modifyBlock]
  split
  · cases rel[loc.1]? <;> rfl
  · rfl

theorem NodePages.writeAdjHeaderAt {rel : Relation} (h : NodePages rel) (blk idx : Nat) (hdr : NodeAdjHeader) :
    NodePages (writeAdjHeaderAt rel blk idx hdr) := by
  intro p hp
  rcases mem_modifyBlock hp with hp | ⟨q, hq, rfl⟩
  · exact h p hp
  · rcases h q (List.mem_of_getElem? hq) with hn | ho
    · exact Or.inl ⟨hn.used, by simp [writeAdjHeader, hn.headers], hn.upper⟩
    · exact Or.inr ⟨ho.used, by simp [writeAdjHeader, ho.headers], ho.raw⟩

@[simp] theorem length_writeAdjHeaderAt (rel : Relation) (blk idx : Nat) (hdr : NodeAdjHeader) :
    (writeAdjHeaderAt rel blk idx hdr).length = rel.length := length_modifyBlock _ _ _

/-! ## An item at the end of the relation -/

theorem isEdgePage_init : initEdgePage.IsEdgePage where
  used := by intro i hi; simp [initEdgePage, pageInit] at hi
  headers := rfl
  lower := by decide
  upper := by decide

theorem initEdgePage_fits {n : Nat} (h : n ≤ 582) : initEdgePage.fits n = true := by
  have := maxAlign_le (n := n)
  rw [Page.fits_iff, show initEdgePage.pdLower = 24 from rfl, show initEdgePage.pdUpper = 8192 from rfl, itemIdSize]
  omega

theorem Page.IsEdgePage.push {p : Page} (h : p.IsEdgePage) {it : Item} (hf : p.fits it.len = true) :
    (p.push it).IsEdgePage where
  used := h.used.push it
  headers := h.headers
  lower := by
    have := Page.fits_iff.mp hf
    simp only [Page.push, Page.pdLower, List.length_append, List.length_singleton, itemIdSize] at this ⊢
    omega
  upper := Nat.le_trans (Nat.sub_le _ _) h.upper

theorem edgeItems_init (rel : Relation) : edgeItems (rel ++ [initEdgePage]) = edgeItems rel := by
  rw [edgeItems, scan_concat]
  simp [scanPage, Page.maxOffset, initEdgePage, pageInit, edgeItems]

/-- The block a new edge goes to, behind the blocks `pre`: the last one of the relation, or a fresh one. -/
inductive EdgeBlock (rel : Relation) : Relation → Page → Prop where
  | last {pre : Relation} {page : Page} : rel = pre ++ [page] → EdgeBlock rel pre page
  | fresh : rel.length < maxBlocks → EdgeBlock rel rel initEdgePage

theorem EdgeBlock.edgePages {rel pre : Relation} {page : Page} (h : EdgeBlock rel pre page) (hr : EdgePages rel) :
    EdgePages (pre ++ [page]) := by
  cases h with
  | last he => exact he ▸ hr
  | fresh hlt =>
    refine ⟨fun p hp => ?_, by simp only [List.length_append, List.length_singleton]; omega⟩
    rcases List.mem_append.mp hp with hp | hp
    · exact hr.pages p hp
    · rw [List.mem_singleton.mp hp]
      exact isEdgePage_init

theorem EdgeBlock.edgeItems {rel pre : Relation} {page : Page} (h : EdgeBlock rel pre page) :
    edgeItems (pre ++ [page]) = edgeItems rel := by
  cases h with
  | last he => rw [he]
  | fresh _ => exact edgeItems_init rel

/-- `find_or_extend_edge_page` gives the last block when it has room, else a fresh one, or cannot extend the relation. -/
theorem findOrExtendEdgePage_cases (rel : Relation) {n : Nat} (hn : initEdgePage.fits n = true) :
    findOrExtendEdgePage rel n = .error .cannotExtend ∨
      ∃ pre page, findOrExtendEdgePage rel n = .ok (pre ++ [page], pre.length) ∧ EdgeBlock rel pre page ∧
        page.fits n = true := by
  have hfresh : extendRelation rel initEdgePage = .error .cannotExtend ∨
      ∃ pre page, extendRelation rel initEdgePage = .ok (pre ++ [page], pre.length) ∧ EdgeBlock rel pre page ∧
        page.fits n = true := by
    rcases extendRelation_cases rel initEdgePage with ⟨hlt, he⟩ | he
    · exact Or.inr ⟨rel, initEdgePage, he, .fresh hlt, hn⟩
    · exact Or.inl he
  cases hl : rel.getLast? with
  | none =>
    simp only [findOrExtendEdgePage, hl]
    exact hfresh
  | some page =>
    by_cases hf : page.fits n = true
    · obtain ⟨pre, hpre⟩ := List.getLast?_eq_some_iff.mp hl
      have hlen : rel.length - 1 = pre.length := by rw [hpre, List.length_append, List.length_singleton]; omega
      simp only [findOrExtendEdgePage, hl, hf, if_true]
      exact Or.inr ⟨pre, page, by rw [hlen, hpre], .last hpre, hf⟩
    · simp only [findOrExtendEdgePage, hl, hf, Bool.false_eq_true, if_false]
      exact hfresh

theorem edgeItems_push (pre : Relation) (page : Page) (hdr : HeapTupleHeader) (data : Bytes)
    (hl : edgeFixedDataSize ≤ data.length) :
    edgeItems (pre ++ [page.push (.tuple hdr data)]) =
      edgeItems (pre ++ [page]) ++ [⟨(pre.length, page.maxOffset + 1), hdr, data⟩] := by
  refine scan_push_last (Page.maxOffset_push _ _) (fun o _ h2 => ?_) ?_
  · simp only [Page.edgeAt, Page.itemId_push, if_neg (show o ≠ page.maxOffset + 1 by omega)]
  · simp only [Page.edgeAt, Page.itemId_push, if_true, Nat.not_lt.mpr hl, if_false]

/-! ## Insert -/

/-- The item `insert_edge` writes: its next pointers are the old heads. -/
def newEdge (xid : Xid) (edgeId : Int64) (relTypeId : Int32) (src tgt : Int64) (srcAdj tgtAdj : NodeAdjHeader)
    (propBytes : Bytes) (loc : Nat × Nat) : EdgeItem :=
  { loc := loc, hdr := { HeapTupleHeader.fresh xid with ctid := some loc },
    data := edgeData edgeId relTypeId src tgt srcAdj.outHeadPg srcAdj.outHeadSl tgtAdj.inHeadPg tgtAdj.inHeadSl propBytes }

section NewEdge

variable (xid : Xid) (edgeId : Int64) (relTypeId : Int32) (src tgt : Int64) (srcAdj tgtAdj : NodeAdjHeader)
  (propBytes : Bytes) (loc : Nat × Nat)

@[simp] theorem edgeId_newEdge : (newEdge xid edgeId relTypeId src tgt srcAdj tgtAdj propBytes loc).edgeId = edgeId := by
  rw [EdgeItem.edgeId, newEdge, edgeIdOf_edgeData]

@[simp] theorem source_newEdge : (newEdge xid edgeId relTypeId src tgt srcAdj tgtAdj propBytes loc).source = src := by
  rw [EdgeItem.source, newEdge, sourceOf_edgeData]

@[simp] theorem target_newEdge : (newEdge xid edgeId relTypeId src tgt srcAdj tgtAdj propBytes loc).target = tgt := by
  rw [EdgeItem.target, newEdge, targetOf_edgeData]

@[simp] theorem loc_newEdge : (newEdge xid edgeId relTypeId src tgt srcAdj tgtAdj propBytes loc).loc = loc := rfl

@[simp] theorem undeleted_newEdge :
    (newEdge xid edgeId relTypeId src tgt srcAdj tgtAdj propBytes loc).undeleted = true := rfl

@[simp] theorem xmin_newEdge : (newEdge xid edgeId relTypeId src tgt srcAdj tgtAdj propBytes loc).hdr.xmin = xid := rfl

end NewEdge

/-- The node relation with the new edge at the head of the two chains. -/
def pushHeads (nodes : Relation) (srcBlk srcAdjIdx tgtBlk tgtAdjIdx : Nat) (srcAdj tgtAdj : NodeAdjHeader)
    (loc : Nat × Nat) : Relation :=
  writeAdjHeaderAt (writeAdjHeaderAt nodes srcBlk srcAdjIdx (srcAdj.pushOut loc.1 loc.2)) tgtBlk tgtAdjIdx
    ((if srcBlk = tgtBlk ∧ srcAdjIdx = tgtAdjIdx then srcAdj.pushOut loc.1 loc.2 else tgtAdj).pushIn loc.1 loc.2)

/-- What `insert_edge` does once both headers are read: fail without a change, or add the edge. -/
inductive LinkResult (xid : Xid) (s : Store) (edgeId : Int64) (relTypeId : Int32) (src tgt : Int64) (propBytes : Bytes)
    (srcBlk srcAdjIdx tgtBlk tgtAdjIdx : Nat) (srcAdj tgtAdj : NodeAdjHeader) : Outcome Unit → Prop where
  | failed {e : PgError} : e ≠ .outOfPage →
      LinkResult xid s edgeId relTypeId src tgt propBytes srcBlk srcAdjIdx tgtBlk tgtAdjIdx srcAdj tgtAdj (s, .error e)
  | linked {t : Store} (loc : Nat × Nat) : t.nodes = pushHeads s.nodes srcBlk srcAdjIdx tgtBlk tgtAdjIdx srcAdj tgtAdj loc →
      EdgePages t.edges →
      edgeItems t.edges = edgeItems s.edges ++ [newEdge xid edgeId relTypeId src tgt srcAdj tgtAdj propBytes loc] →
      LinkResult xid s edgeId relTypeId src tgt propBytes srcBlk srcAdjIdx tgtBlk tgtAdjIdx srcAdj tgtAdj (t, .ok ())

@[simp] theorem Store.nodes_log (s : Store) (r : WalRecord) : (s.log r).nodes = s.nodes := rfl

@[simp] theorem Store.edges_log (s : Store) (r : WalRecord) : (s.log r).edges = s.edges := rfl

/-- The item of a new edge as it is on its page. -/
def EdgeItem.item (e : EdgeItem) : Item := .tuple e.hdr e.data

/-- The records `insert_edge` logs for an edge at `loc`: the item as it was before its self-pointer was set, the header of the
source, and the header of the target unless it is the same one. -/
def linkRecords (item : Item) (srcBlk srcAdjIdx tgtBlk tgtAdjIdx : Nat) (srcAdj tgtAdj : NodeAdjHeader) (loc : Nat × Nat) :
    List WalRecord :=
  let newSrcAdj := srcAdj.pushOut loc.1 loc.2
  if srcBlk = tgtBlk ∧ srcAdjIdx = tgtAdjIdx then
    [.edgeInsert loc.1 loc.2 item, .adjUpdate srcBlk srcAdjIdx (newSrcAdj.pushIn loc.1 loc.2)]
  else
    [.edgeInsert loc.1 loc.2 item, .adjUpdate srcBlk srcAdjIdx newSrcAdj,
      .adjUpdate tgtBlk tgtAdjIdx (tgtAdj.pushIn loc.1 loc.2)]

/-- What `insert_edge` does once both headers are read, page by page: raise an error without a change, or put the item behind
the last one of its block, write the headers and log the records. -/
theorem linkEdge_cases (pg : PgSys) (xid : Xid) {s : Store} (edgeId : Int64) (relTypeId : Int32) (src tgt : Int64)
    {propBytes : Bytes} (srcBlk srcAdjIdx tgtBlk tgtAdjIdx : Nat) (srcAdj tgtAdj : NodeAdjHeader) (he : EdgePages s.edges)
    (hb : propBytes.length ≤ propInlineMax) :
    linkEdge pg xid s edgeId relTypeId src tgt propBytes srcBlk srcAdjIdx tgtBlk tgtAdjIdx srcAdj tgtAdj =
        (s, .error .cannotExtend) ∨
      ∃ pre page e, EdgeBlock s.edges pre page ∧ page.fits e.item.len = true ∧
        e = newEdge xid edgeId relTypeId src tgt srcAdj tgtAdj propBytes (pre.length, page.maxOffset + 1) ∧
        linkEdge pg xid s edgeId relTypeId src tgt propBytes srcBlk srcAdjIdx tgtBlk tgtAdjIdx srcAdj tgtAdj =
          ({ nodes := pushHeads s.nodes srcBlk srcAdjIdx tgtBlk tgtAdjIdx srcAdj tgtAdj e.loc,
             edges := pre ++ [page.push e.item],
             wal := s.wal ++ linkRecords (.tuple (HeapTupleHeader.fresh xid) e.data) srcBlk srcAdjIdx tgtBlk tgtAdjIdx srcAdj
               tgtAdj e.loc }, .ok ()) := by
  simp only [propInlineMax] at hb
  have hlen : (buildEdgeItemBytes xid edgeId relTypeId src tgt srcAdj.outHeadPg srcAdj.outHeadSl tgtAdj.inHeadPg
      tgtAdj.inHeadSl propBytes).len = 582 := by
    rw [buildEdgeItemBytes_eq, Item.len, length_edgeData, hdrSize]
    omega
  unfold linkEdge
  simp only [hlen]
  rcases findOrExtendEdgePage_cases s.edges (initEdgePage_fits (Nat.le_refl 582)) with hf | ⟨pre, page, hf, hblock, hfit⟩
  · simp only [hf]
    exact Or.inl trivial
  have hp : (pre ++ [page])[pre.length]? = some page := List.getElem?_concat_length ..
  have hpage : page.IsEdgePage := (hblock.edgePages he).pages page (by simp)
  have hadd := addNodeItem_of_fits pg (Item.setCtid pre.length) hp hpage.used (by rwa [hlen])
    (fun off => by rw [buildEdgeItemBytes_eq]; rfl)
  refine Or.inr ⟨pre, page, _, hblock, ?_, rfl, ?_⟩
  · rw [EdgeItem.item, newEdge, Item.len, length_edgeData, hdrSize,
      show 24 + (46 + max 512 propBytes.length) = 582 by omega]
    exact hfit
  · simp only [hf, hadd]
    simp only [modifyBlock_concat, buildEdgeItemBytes_eq, linkRecords, pushHeads, loc_newEdge]
    by_cases hself : srcBlk = tgtBlk ∧ srcAdjIdx = tgtAdjIdx
    · simp only [hself, and_self, if_true, Store.log, List.append_assoc]
      rfl
    · simp only [hself, if_false, Store.log, List.append_assoc]
      rfl

theorem linkEdge_result (pg : PgSys) (xid : Xid) {s : Store} (edgeId : Int64) (relTypeId : Int32) (src tgt : Int64)
    {propBytes : Bytes} (srcBlk srcAdjIdx tgtBlk tgtAdjIdx : Nat) (srcAdj tgtAdj : NodeAdjHeader) (he : EdgePages s.edges)
    (hb : propBytes.length ≤ propInlineMax) :
    LinkResult xid s edgeId relTypeId src tgt propBytes srcBlk srcAdjIdx tgtBlk tgtAdjIdx srcAdj tgtAdj
      (linkEdge pg xid s edgeId relTypeId src tgt propBytes srcBlk srcAdjIdx tgtBlk tgtAdjIdx srcAdj tgtAdj) := by
  rcases linkEdge_cases pg xid edgeId relTypeId src tgt srcBlk srcAdjIdx tgtBlk tgtAdjIdx srcAdj tgtAdj he hb with
    h | ⟨pre, page, e, hblock, hfit, rfl, h⟩
  · rw [h]
    exact .failed (by simp)
  rw [h]
  have hpages := hblock.edgePages he
  refine .linked (pre.length, page.maxOffset + 1) rfl ⟨fun p hp => ?_, by simpa using hpages.blocks⟩ ?_
  · rcases List.mem_append.mp hp with hp | hp
    · exact hpages.pages p (List.mem_append_left _ hp)
    · rw [List.mem_singleton.mp hp]
      exact (hpages.pages page (by simp)).push hfit
  · dsimp only
    rw [EdgeItem.item, edgeItems_push _ _ _ _ (by simp only [newEdge, length_edgeData, edgeFixedDataSize]; omega),
      hblock.edgeItems]
    rfl

/-- What `insert_edge` can do: raise an error without a change, or link the edge to the headers of both endpoints. It leaves
the page only when a located node has no header. -/
theorem insertEdge_cases (pg : PgSys) (xid : Xid) (cache : LocationCache) {s : Store} (edgeId : Int64) (relTypeId : Int32)
    (src tgt : Int64) (propBytes : Bytes) (hn : NodePages s.nodes) :
    (∃ e, insertEdge pg xid cache s edgeId relTypeId src tgt propBytes = (s, .error e) ∧
        (e = .outOfPage → ∃ n b o a, Located s.nodes n b o a ∧ headerAt s.nodes (b, a) = none)) ∨
      ∃ sb sOff sa tb tOff ta srcAdj tgtAdj, propBytes.length ≤ propInlineMax ∧
        Located s.nodes src sb sOff sa ∧ Located s.nodes tgt tb tOff ta ∧
        headerAt s.nodes (sb, sa) = some srcAdj ∧ headerAt s.nodes (tb, ta) = some tgtAdj ∧
        insertEdge pg xid cache s edgeId relTypeId src tgt propBytes =
          linkEdge pg xid s edgeId relTypeId src tgt propBytes sb sa tb ta srcAdj tgtAdj := by
  by_cases hb : propInlineMax < propBytes.length
  · exact Or.inl ⟨.edgeTooLarge propBytes.length, by simp only [insertEdge, hb, if_true], by simp⟩
  cases hs : findNodeLocation cache s.nodes src with
  | error e =>
    exact Or.inl ⟨e, by simp only [insertEdge, hb, if_false, hs], fun he => absurd he (findNodeLocation_error hs)⟩
  | ok r =>
    cases r with
    | none => exact Or.inl ⟨.sourceNotFound src, by simp only [insertEdge, hb, if_false, hs], by simp⟩
    | some r =>
      obtain ⟨sb, sOff, sa⟩ := r
      cases ht : findNodeLocation cache s.nodes tgt with
      | error e =>
        exact Or.inl ⟨e, by simp only [insertEdge, hb, if_false, hs, ht], fun he => absurd he (findNodeLocation_error ht)⟩
      | ok r =>
        cases r with
        | none => exact Or.inl ⟨.targetNotFound tgt, by simp only [insertEdge, hb, if_false, hs, ht], by simp⟩
        | some r =>
          obtain ⟨tb, tOff, ta⟩ := r
          have hsl := located_of_findNodeLocation hn hs
          have htl := located_of_findNodeLocation hn ht
          obtain ⟨vs, hvs, -⟩ := hsl
          obtain ⟨vt, hvt, -⟩ := htl
          obtain ⟨ps, hps, -⟩ := versionAt_eq_some.mp hvs
          obtain ⟨pt, hpt, -⟩ := versionAt_eq_some.mp hvt
          dsimp only at hps hpt
          cases hhs : readAdjHeader ps sa with
          | none =>
            refine Or.inl ⟨.outOfPage, by simp only [insertEdge, hb, if_false, hs, ht, readBuffer, hps, hpt, hhs], fun _ => ?_⟩
            exact ⟨src, sb, sOff, sa, located_of_findNodeLocation hn hs, by rw [headerAt, hps, Option.bind_some, hhs]⟩
          | some srcAdj =>
            cases hht : readAdjHeader pt ta with
            | none =>
              refine Or.inl ⟨.outOfPage, by simp only [insertEdge, hb, if_false, hs, ht, readBuffer, hps, hpt, hhs, hht],
                fun _ => ?_⟩
              exact ⟨tgt, tb, tOff, ta, located_of_findNodeLocation hn ht, by rw [headerAt, hpt, Option.bind_some, hht]⟩
            | some tgtAdj =>
              exact Or.inr ⟨sb, sOff, sa, tb, tOff, ta, srcAdj, tgtAdj, Nat.not_lt.mp hb, located_of_findNodeLocation hn hs,
                located_of_findNodeLocation hn ht, headerAt_eq_some.mpr ⟨ps, hps, hhs⟩,
                headerAt_eq_some.mpr ⟨pt, hpt, hht⟩,
                by simp only [insertEdge, hb, if_false, hs, ht, readBuffer, hps, hpt, hhs, hht]⟩

/-! ## Delete -/

theorem Page.IsEdgePage.modifyItem {p : Page} (h : p.IsEdgePage) (off : Nat) (f : Item → Item) :
    (p.modifyItem off f).IsEdgePage where
  used := h.used.modifyItem off f
  headers := h.headers
  lower := by
    have := h.lower
    simpa [Page.modifyItem, Page.modify, Page.pdLower] using this
  upper := h.upper

theorem EdgePages.setXmaxAt {rel : Relation} (h : EdgePages rel) (blk off : Nat) (xmax : Xid) :
    EdgePages (setXmaxAt rel blk off xmax) where
  pages := by
    intro p hp
    rcases mem_modifyBlock hp with hp | ⟨q, hq, rfl⟩
    · exact h.pages p hp
    · exact (h.pages q (List.mem_of_getElem? hq)).modifyItem _ _
  blocks := by rw [length_setXmaxAt]; exact h.blocks

/-- Rewriting an item in place rewrites one item of the list. -/
theorem edgeItems_modifyItem {rel : Relation} {e : EdgeItem} (he : e ∈ edgeItems rel) {f : Item → Item}
    {hdr : HeapTupleHeader} {data : Bytes} (hf : f (.tuple e.hdr e.data) = .tuple hdr data)
    (hlen : edgeFixedDataSize ≤ data.length) :
    edgeItems (modifyBlock rel e.loc.1 (fun p => p.modifyItem e.loc.2 f)) =
      (edgeItems rel).map (fun d => if d.loc = e.loc then ⟨e.loc, hdr, data⟩ else d) := by
  obtain ⟨page, hpage, hr⟩ := edgeAt_eq_some.mp (mem_edgeItems.mp he)
  obtain ⟨h1, h2⟩ := Page.offset_of_edgeAt hr
  refine scan_map _ (length_modifyBlock ..) fun b p p' hp hp' => ?_
  rw [getElem?_modifyBlock, hp] at hp'
  by_cases hb : b = e.loc.1
  · subst hb
    cases hp.symm.trans hpage
    rw [if_pos rfl, Option.map_some, Option.some.injEq] at hp'
    subst hp'
    refine ⟨Page.maxOffset_modifyItem _ _ _, fun o _ _ => ?_⟩
    simp only [Page.edgeAt, Page.itemId_modifyItem h1 h2]
    by_cases ho : o = e.loc.2
    · subst ho
      obtain ⟨hi, -, hl⟩ := Page.itemId_of_edgeAt hr
      simp only [if_true, hi, hf, hl, Nat.not_lt.mpr hlen, if_false, Option.map_some]
    · simp only [ho, if_false]
      rcases hi : page.itemId o with ⟨flags, ⟨hdr, data⟩ | bytes⟩
      · cases flags <;> try rfl
        by_cases hl : data.length < edgeFixedDataSize
        · simp [hl]
        · have hne : ¬((e.loc.1, o) : Nat × Nat) = e.loc := fun h => ho (congrArg Prod.snd h)
          simp [hl, hne]
      · cases flags <;> rfl
  · rw [if_neg hb, Option.some.injEq] at hp'
    subst hp'
    refine ⟨rfl, fun o _ _ => ?_⟩
    cases hd : p.edgeAt b o with
    | none => rfl
    | some d =>
      have hne : ¬d.loc = e.loc := fun h => hb (by rw [← h, (Page.itemId_of_edgeAt hd).2.1])
      simp [hne]

/-- Two items at one location are the same. -/
theorem eq_of_mem_edgeItems {rel : Relation} {d e : EdgeItem} (hd : d ∈ edgeItems rel) (he : e ∈ edgeItems rel)
    (hl : d.loc = e.loc) : d = e := by
  have h := mem_edgeItems.mp hd
  rw [hl, mem_edgeItems.mp he] at h
  exact (Option.some.inj h).symm

/-- Setting a deleter rewrites one item of the list. -/
theorem edgeItems_setXmaxAt {rel : Relation} {e : EdgeItem} (he : e ∈ edgeItems rel) (xmax : Xid) :
    edgeItems (setXmaxAt rel e.loc.1 e.loc.2 xmax) =
      (edgeItems rel).map (fun d => if d.loc = e.loc then d.setXmax xmax else d) := by
  obtain ⟨_, _, hr⟩ := edgeAt_eq_some.mp (mem_edgeItems.mp he)
  rw [setXmaxAt, edgeItems_modifyItem he rfl (Nat.not_lt.mp (Page.itemId_of_edgeAt hr).2.2)]
  refine List.map_congr_left fun d hd => ?_
  split
  · next hl => rw [eq_of_mem_edgeItems hd he hl]; rfl
  · rfl

theorem find?_map_eq_findSome? {α β : Type} (p : α → Bool) (f : α → β) (l : List α) :
    (l.find? p).map f = l.findSome? (fun a => if p a then some (f a) else none) := by
  induction l with
  | nil => rfl
  | cons a l ih => cases h : p a <;> simp [h, ih]

theorem isLiveEdgeAt_eq (page : Page) (edgeId : Int64) (blk off : Nat) :
    (if isLiveEdgeAt page edgeId off then some (blk, off) else none) =
      (page.edgeAt blk off).bind (fun e => if e.edgeId = edgeId ∧ e.undeleted then some e.loc else none) := by
  rcases hi : page.itemId off with ⟨flags, ⟨hdr, data⟩ | bytes⟩
  · cases flags <;> simp only [isLiveEdgeAt, Page.edgeAt, hi] <;> try rfl
    by_cases hl : data.length < edgeFixedDataSize
    · simp [hl, Nat.not_le.mpr hl]
    · by_cases hc : edgeIdOf data = edgeId ∧ hdr.xmaxInvalid = true <;>
        simp [hl, Nat.not_lt.mp hl, EdgeItem.edgeId, EdgeItem.undeleted, hc]
  · cases flags <;> simp only [isLiveEdgeAt, Page.edgeAt, hi] <;> rfl

theorem findLiveEdge_eq (rel : Relation) (edgeId : Int64) :
    findLiveEdge rel edgeId =
      ((edgeItems rel).filterMap (fun e => if e.edgeId = edgeId ∧ e.undeleted then some e.loc else none)).head? := by
  rw [edgeItems, ← scan_bind, ← scanFirst_eq_head?]
  simp only [findLiveEdge, blocks, scanFirst, Page.offsets, find?_map_eq_findSome?, isLiveEdgeAt_eq]

/-- What `delete_edge` can do: nothing, when no undeleted edge has the id, or set the deleter of an undeleted edge. -/
theorem deleteEdge_cases (xid : Xid) (s : Store) (edgeId : Int64) :
    (deleteEdge xid s edgeId = (s, .ok false) ∧ ∀ e ∈ edgeItems s.edges, e.edgeId = edgeId → e.undeleted = false) ∨
      ∃ e ∈ edgeItems s.edges, e.edgeId = edgeId ∧ e.undeleted = true ∧
        deleteEdge xid s edgeId =
          ({ s with edges := setXmaxAt s.edges e.loc.1 e.loc.2 xid, wal := s.wal ++ [.edgeDelete e.loc.1 e.loc.2 xid] },
            .ok true) := by
  cases hf : findLiveEdge s.edges edgeId with
  | none =>
    refine Or.inl ⟨by simp only [deleteEdge, hf], fun e he hid => ?_⟩
    rw [findLiveEdge_eq, List.head?_eq_none_iff, List.filterMap_eq_nil_iff] at hf
    have := hf e he
    simpa [hid] using this
  | some loc =>
    have hf' := hf
    rw [findLiveEdge_eq] at hf'
    obtain ⟨e, he, hc⟩ := List.mem_filterMap.mp (List.mem_of_head? hf')
    split at hc
    · next h =>
      cases hc
      exact Or.inr ⟨e, he, h.1, h.2, by simp only [deleteEdge, hf, Store.log]⟩
    · cases hc

end PgEddy
