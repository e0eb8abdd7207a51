import Mathlib.Data.List.Forall2
import PgEddy.Lemmas.Histories
import PgEddy.Lemmas.Vacuums

/-!
# What a vacuum reclaims and counts

On a node page vacuum marks the records whose deleter the horizon lets go, leaves every other line pointer as it is, and counts
both. Edge pages have no special area, by which overflow blocks are told from node pages: vacuum skips them all.
-/

namespace PgEddy

open Machine

/-- The tuple header of an LP_NORMAL item that is a record. -/
def ItemId.record (i : ItemId) : Option HeapTupleHeader :=
  match i with
  | ⟨.normal, .tuple hdr data⟩ => if data.length < 1 then none else some hdr
  | _ => none

/-- The records of a page whose header is of a kind. -/
def Page.countRecords (p : HeapTupleHeader → Bool) (page : Page) : Nat :=
  page.offsets.countP (fun off => (page.itemId off).record.any p)

def countRecords (p : HeapTupleHeader → Bool) (rel : Relation) : Nat := (rel.map (Page.countRecords p)).sum

/-- The records that the horizon removes are no longer LP_NORMAL, and every other line pointer and its bytes are what they were. -/
def Page.Reclaimed (hz : VacuumHorizon) (page page' : Page) : Prop :=
  ∀ off, if (page.itemId off).record.any hz.removes then (page'.itemId off).lpFlags ≠ .normal
    else page'.itemId off = page.itemId off

/-- `vacuum_relation` goes through, reclaims block by block and returns the counts of the records it removed and of the others. -/
def VacuumReclaims (pg : PgSys) (hz : VacuumHorizon) (rel : Relation) (counts : Nat → Nat → VacuumStats) : Prop :=
  ∃ rel' recs, vacuumRelation pg hz rel =
      .ok (rel', counts (countRecords hz.removes rel) (countRecords (fun hdr => !hz.removes hdr) rel), recs) ∧
    List.Forall₂ (Page.Reclaimed hz) rel rel'

namespace ReclaimAux

variable {hz : VacuumHorizon} {isNodePage : Bool} {page : Page}

/-! ## One page -/

/-- The offsets the collecting loop finds dead are those of the records the horizon removes. -/
theorem mem_deadOffsets_iff {off : Nat} :
    off ∈ deadOffsets hz isNodePage page ↔ (page.itemId off).record.any hz.removes = true := by
  rw [mem_deadOffsets]
  rcases hi : page.itemId off with ⟨flags, ⟨hdr, data⟩ | bytes⟩
  · cases flags with
    | normal =>
      by_cases hl : data.length < 1
      · simp only [ItemId.record, if_pos hl, Option.any_none, Bool.false_eq_true, iff_false]
        rintro ⟨hdr', data', heq, hle, -⟩
        cases heq
        omega
      · simp only [ItemId.record, if_neg hl, Option.any_some]
        constructor
        · rintro ⟨hdr', data', heq, -, hr⟩
          cases heq
          exact hr
        · exact fun hr => ⟨hdr, data, rfl, by omega, hr⟩
    | unused | redirect | dead => simp [ItemId.record]
  · cases flags <;> simp [ItemId.record]

theorem length_deadOffsets : (deadOffsets hz isNodePage page).length = page.countRecords hz.removes := by
  rw [deadOffsets, ← List.countP_eq_length_filter, Page.countRecords]
  refine List.countP_congr fun off hoff => ?_
  rw [← @mem_deadOffsets_iff _ isNodePage, deadOffsets, List.mem_filter]
  exact (and_iff_right hoff).symm

theorem liveCount_eq : liveCount hz isNodePage page = page.countRecords (fun hdr => !hz.removes hdr) := by
  rw [liveCount, Page.countRecords]
  refine List.countP_congr fun off _ => ?_
  rcases hi : page.itemId off with ⟨flags, ⟨hdr, data⟩ | bytes⟩
  · cases flags with
    | normal =>
      by_cases hl : data.length < 1
      · simp [vacuumVerdict, ItemId.record, hi, hl]
      · by_cases hx : hdr.xmaxInvalid = true
        · simp [vacuumVerdict, ItemId.record, hi, hl, hx, VacuumHorizon.removes]
        · by_cases hr : hz.removes hdr = true <;> simp [vacuumVerdict, ItemId.record, hi, hl, hx, hr]
    | unused | redirect | dead => simp [vacuumVerdict, ItemId.record, hi]
  · cases flags <;> simp [vacuumVerdict, ItemId.record, hi]

/-- A page that keeps the line pointers of the marked page is reclaimed. -/
theorem reclaimed_of_marked {page' : Page} (h : page'.linp = (markDead page (deadOffsets hz isNodePage page)).linp) :
    page.Reclaimed hz page' := by
  intro off
  have hitem : page'.itemId off = (markDead page (deadOffsets hz isNodePage page)).itemId off := by rw [Page.itemId, Page.itemId, h]
  rw [hitem, Page.itemId_markDead fun o ho => deadOffsets_le ho]
  simp only [mem_deadOffsets_iff]
  by_cases hr : (page.itemId off).record.any hz.removes = true
  · rw [if_pos hr]
    split
    · simp
    · next hnot => exact fun hn => hnot ⟨hr, hn⟩
  · rw [if_neg hr, if_neg fun h => hr h.1]

theorem reclaimed_refl (h : ∀ off, (page.itemId off).record.any hz.removes = false) : page.Reclaimed hz page := by
  intro off
  rw [if_neg (by rw [h off]; simp)]

/-- Vacuum of a node page that goes through. -/
theorem vacuumBlock_node_ok {pg : PgSys} {blkno : Nat} {page' : Page} {stats : VacuumStats} {recs : List WalRecord}
    (hn : page.IsNodePage) (h : vacuumBlock pg hz page blkno = .ok (page', stats, recs)) :
    page.Reclaimed hz page' ∧ stats = ⟨page.countRecords hz.removes, page.countRecords (fun hdr => !hz.removes hdr), 0, 0⟩ := by
  have hpd : (page.pdSpecial != blcksz) = true := by
    rw [Page.pdSpecial, hn.headers]
    decide
  simp only [vacuumBlock, hn.not_overflow, hpd, Bool.false_eq_true, if_false, if_true, length_deadOffsets, liveCount_eq] at h
  split at h
  · next hd =>
    cases h
    refine ⟨reclaimed_refl fun off => ?_, rfl⟩
    rw [← Bool.not_eq_true, ← @mem_deadOffsets_iff _ true, hd]
    exact List.not_mem_nil
  · split at h
    · cases h
    · next compacted hc =>
      cases h
      refine ⟨?_, rfl⟩
      obtain ⟨cleared, hclear, rfl⟩ := Option.map_eq_some_iff.mp hc
      rcases clearAdjHeaders_cases (markDead page (deadOffsets hz true page)) (deadAdjSlots hz true page) with
        ⟨-, c, hcl, hcleared⟩ | ⟨-, hnone⟩
      · cases hclear.symm.trans hcl
        refine @reclaimed_of_marked _ true _ _ ?_
        rw [pg.repair_linp cleared fun i hi => hn.used.markDead _ i (hcleared.linp ▸ hi), hcleared.linp]
      · rw [hclear] at hnone
        cases hnone

/-- An overflow block has no record. -/
theorem record_overflow (ho : page.IsOverflowBlock) (off : Nat) : (page.itemId off).record = none := by
  rcases hi : page.itemId off with ⟨flags, item⟩
  cases flags with
  | normal =>
    obtain ⟨h1, h2⟩ := @Page.offset_of_used page off (by simp [hi])
    obtain ⟨bytes, hb⟩ := ho.raw _ (Page.itemId_mem h1 h2)
    rw [hi] at hb
    cases hb
    rfl
  | unused | redirect | dead => rfl

theorem countRecords_overflow (ho : page.IsOverflowBlock) (p : HeapTupleHeader → Bool) : page.countRecords p = 0 := by
  rw [Page.countRecords, List.countP_eq_zero]
  intro off _
  simp [record_overflow ho]

theorem vacuumBlock_overflow_ok {pg : PgSys} {blkno : Nat} {page' : Page} {stats : VacuumStats} {recs : List WalRecord}
    (ho : page.IsOverflowBlock) (h : vacuumBlock pg hz page blkno = .ok (page', stats, recs)) :
    page.Reclaimed hz page' ∧ stats = ⟨page.countRecords hz.removes, page.countRecords (fun hdr => !hz.removes hdr), 0, 0⟩ := by
  rw [(vacuumBlock_overflow pg hz ho blkno).1] at h
  cases h
  rw [countRecords_overflow ho, countRecords_overflow ho]
  exact ⟨reclaimed_refl fun off => by rw [record_overflow ho]; rfl, rfl⟩

/-! ## The relations -/

/-- A vacuum of a node relation that goes through. -/
theorem vacuumBlocks_ok {pg : PgSys} :
    ∀ {nodes : Relation} {k : Nat} {nodes' : Relation} {stats : VacuumStats} {recs : List WalRecord}, NodePages nodes →
      vacuumBlocks pg hz (nodes.zipIdx k) = .ok (nodes', stats, recs) →
      List.Forall₂ (Page.Reclaimed hz) nodes nodes' ∧
        stats = ⟨countRecords hz.removes nodes, countRecords (fun hdr => !hz.removes hdr) nodes, 0, 0⟩
  | [], _, _, _, _, _, h => by
    cases h
    exact ⟨.nil, rfl⟩
  | p :: nodes, k, nodes', stats, recs, hn, h => by
    obtain ⟨hp, hrest⟩ := List.forall_mem_cons.mp hn
    rw [List.zipIdx_cons] at h
    cases hb : vacuumBlock pg hz p k with
    | error e =>
      simp only [vacuumBlocks, hb] at h
      cases h
    | ok r =>
      obtain ⟨p', st, rec⟩ := r
      rw [vacuumBlocks_cons hb] at h
      cases hb' : vacuumBlocks pg hz (nodes.zipIdx (k + 1)) with
      | error e =>
        rw [hb'] at h
        cases h
      | ok r' =>
        obtain ⟨rel', st', rec'⟩ := r'
        rw [hb'] at h
        cases h
        obtain ⟨hall, rfl⟩ := vacuumBlocks_ok hrest hb'
        have hpage := hp.elim (fun hp => vacuumBlock_node_ok hp hb) (fun hp => vacuumBlock_overflow_ok hp hb)
        obtain ⟨hreclaimed, rfl⟩ := hpage
        exact ⟨.cons hreclaimed hall, by simp [VacuumStats.add, countRecords]⟩

/-- A vacuum of a node relation reclaims and counts exactly if every slot it clears is in the special area. -/
theorem nodes_iff (pg : PgSys) {nodes : Relation} (hn : NodePages nodes) :
    VacuumReclaims pg hz nodes (fun dead live => ⟨dead, live, 0, 0⟩) ↔
      ∀ loc v, versionAt nodes loc = some v → hz.removes v.hdr = true → v.slot < maxNodeSlotsPerPage := by
  have hslots : (∀ p ∈ nodes, ∀ a ∈ deadAdjSlots hz true p, a < maxNodeSlotsPerPage) ↔
      ∀ loc v, versionAt nodes loc = some v → hz.removes v.hdr = true → v.slot < maxNodeSlotsPerPage := by
    constructor
    · intro h loc v hv hr
      obtain ⟨p, hp, hpv⟩ := versionAt_eq_some.mp hv
      exact h p (List.mem_of_getElem? hp) _ (mem_deadAdjSlots.mpr ⟨loc.2, v, hpv, hr, rfl⟩)
    · intro h p hp a ha
      obtain ⟨o, v, hpv, hr, rfl⟩ := mem_deadAdjSlots.mp ha
      obtain ⟨b, hb⟩ := List.getElem?_of_mem hp
      exact h (b, o) v (versionAt_eq_some.mpr ⟨p, hb, hpv⟩) hr
  rw [← hslots]
  rcases vacuumBlocks_cases pg hz nodes 0 hn with ⟨hall, nodes', stats, recs, hv, -⟩ | ⟨⟨p, hp, a, ha, hout⟩, hv⟩
  · refine iff_of_true ?_ hall
    obtain ⟨hreclaimed, rfl⟩ := vacuumBlocks_ok hn hv
    exact ⟨nodes', recs, hv, hreclaimed⟩
  · refine iff_of_false ?_ fun h => hout (h p hp a ha)
    rintro ⟨nodes', recs, hok, -⟩
    rw [vacuumRelation, blocks, hv] at hok
    cases hok

/-- Vacuum takes every edge page for an overflow block. -/
theorem vacuumBlocks_edges (pg : PgSys) :
    ∀ (edges : Relation) (k : Nat), (∀ p ∈ edges, p.IsEdgePage) →
      vacuumBlocks pg hz (edges.zipIdx k) = .ok (edges, ⟨0, 0, 0, 0⟩, [])
  | [], _, _ => rfl
  | p :: edges, k, h => by
    obtain ⟨hp, hrest⟩ := List.forall_mem_cons.mp h
    have hoverflow : isOverflowPage p = true := by
      rw [isOverflowPage, Page.pdSpecial, hp.headers]
      decide
    have hblock : vacuumBlock pg hz p k = .ok (p, ⟨0, 0, 0, 0⟩, []) := by simp only [vacuumBlock, hoverflow, if_true]
    rw [List.zipIdx_cons, vacuumBlocks_cons hblock, vacuumBlocks_edges pg edges (k + 1) hrest]
    rfl

theorem countRecords_add (rel : Relation) :
    countRecords hz.removes rel + countRecords (fun hdr => !hz.removes hdr) rel = countRecords (fun _ => true) rel := by
  induction rel with
  | nil => rfl
  | cons p rel ih =>
    have hpage : p.countRecords hz.removes + p.countRecords (fun hdr => !hz.removes hdr) = p.countRecords (fun _ => true) := by
      simp only [Page.countRecords]
      induction p.offsets with
      | nil => rfl
      | cons o offs ih =>
        simp only [List.countP_cons]
        cases (p.itemId o).record with
        | none => simpa only [Option.any_none, Bool.false_eq_true, if_false, Nat.add_zero] using ih
        | some hdr =>
          simp only [Option.any_some, if_true]
          by_cases hr : hz.removes hdr = true
          · simp only [hr, Bool.not_true, Bool.false_eq_true, if_false, if_true]
            omega
          · simp only [hr, Bool.not_false, Bool.false_eq_true, if_false, if_true]
            omega
    simp only [countRecords, List.map_cons, List.sum_cons] at ih ⊢
    omega

/-- A vacuum of an edge relation reclaims and counts exactly if there is nothing to count. -/
theorem edges_iff (pg : PgSys) {edges : Relation} (he : EdgePages edges) :
    VacuumReclaims pg hz edges (fun dead live => ⟨0, 0, dead, live⟩) ↔ countRecords (fun _ => true) edges = 0 := by
  have hv := @vacuumBlocks_edges hz pg edges 0 he.pages
  have hadd := @countRecords_add hz edges
  constructor
  · rintro ⟨edges', recs, hok, -⟩
    rw [vacuumRelation, blocks, hv] at hok
    simp only [Except.ok.injEq, Prod.mk.injEq, VacuumStats.mk.injEq] at hok
    omega
  · intro hzero
    have hdead : countRecords hz.removes edges = 0 := by omega
    have hlive : countRecords (fun hdr => !hz.removes hdr) edges = 0 := by omega
    refine ⟨edges, [], by rw [vacuumRelation, blocks, hv, hdead, hlive], ?_⟩
    refine List.forall₂_same.mpr fun p hp => reclaimed_refl fun off => ?_
    by_contra hrecord
    rw [Bool.not_eq_false] at hrecord
    obtain ⟨hdr, hhdr, -⟩ := (Option.any_eq_true _ _).mp hrecord
    have hpage : p.countRecords (fun _ => true) = 0 := by
      rw [countRecords, List.sum_eq_zero_iff_forall_eq_nat] at hzero
      exact hzero _ (List.mem_map_of_mem hp)
    rw [Page.countRecords, List.countP_eq_zero] at hpage
    refine hpage off (mem_offsets.mpr (Page.offset_of_used ?_)) (by rw [hhdr]; rfl)
    intro hunused
    rcases hi : p.itemId off with ⟨flags, item⟩
    rw [hi] at hunused hhdr
    cases hunused
    cases hhdr

end ReclaimAux

/-- After any history: a vacuum of the node relation reclaims and counts if and only if the slots of the versions it removes are
in the special area, and a vacuum of the edge relation if and only if the relation has no record at all. -/
theorem vacuum_reclaims_iff (pg : PgSys) (ops : List HistoryOp) (h : HistoryState)
    (hfresh : EveryCall (HistoryState.step pg) HistoryOp.Fresh (.start .empty) ops)
    (hrun : run (HistoryState.step pg) (.start .empty) ops = some h) (hz : VacuumHorizon) :
    (VacuumReclaims pg hz h.store.nodes (fun dead live => ⟨dead, live, 0, 0⟩) ↔
        ∀ loc v, versionAt h.store.nodes loc = some v → hz.removes v.hdr = true → v.slot < maxNodeSlotsPerPage) ∧
      (VacuumReclaims pg hz h.store.edges (fun dead live => ⟨0, 0, dead, live⟩) ↔
        countRecords (fun _ => true) h.store.edges = 0) := by
  have hi : HistoryInv h := run_invariant (fun _ _ _ hi hf ht =>
    hi.step hf.node (HistoryState.step_cases hi.sound.toWellFormed ht)) historyInv_start hfresh hrun
  exact ⟨ReclaimAux.nodes_iff pg hi.sound.nodePages, ReclaimAux.edges_iff pg hi.sound.edgePages⟩

/-- Transaction 3 inserts two nodes and an edge and commits, transaction 4 deletes the edge and updates a node and commits. -/
def deletedEdge : List HistoryOp :=
  [.begin, .call (.insertNode 3 1 [] []), .call (.insertNode 3 2 [5] [1, 2]), .call (.insertEdge 3 .empty 1 7 1 2 [8]),
    .commit 3, .begin, .call (.deleteEdge 4 1), .call (.updateNode 4 .empty 1 [6] []), .commit 4]

/-- Both transactions have committed, and nobody looks at what they have deleted. -/
def afterBoth : VacuumHorizon := { oldestXmin := 5, didCommit := fun xid => decide (xid = 3 ∨ xid = 4) }

theorem vacuum_reclaims_iff_deleted_edge :
    ∃ h, run (HistoryState.step postgres) (.start .empty) deletedEdge = some h ∧
      (VacuumReclaims postgres afterBoth h.store.edges (fun dead live => ⟨0, 0, dead, live⟩) ↔
        countRecords (fun _ => true) h.store.edges = 0) := by
  have hsome : (run (HistoryState.step postgres) (.start .empty) deletedEdge).isSome = true := by decide +kernel
  obtain ⟨h, hrun⟩ := Option.isSome_iff_exists.mp hsome
  exact ⟨h, hrun, (vacuum_reclaims_iff postgres deletedEdge h (by decide +kernel) hrun afterBoth).2⟩

/-- The deleted edge is still there after the vacuum and nothing is counted. -/
theorem deleted_edge_is_not_reclaimed :
    ¬∀ (pg : PgSys) (ops : List HistoryOp) (h : HistoryState),
      EveryCall (HistoryState.step pg) HistoryOp.Fresh (.start .empty) ops →
      run (HistoryState.step pg) (.start .empty) ops = some h →
      ∀ hz, VacuumReclaims pg hz h.store.edges (fun dead live => ⟨0, 0, dead, live⟩) := by
  intro hall
  have hfresh : EveryCall (HistoryState.step postgres) HistoryOp.Fresh (.start .empty) deletedEdge := by decide +kernel
  have hcount : (run (HistoryState.step postgres) (.start .empty) deletedEdge).any (fun h =>
      countRecords afterBoth.removes h.store.edges == 1 &&
        (vacuumRelation postgres afterBoth h.store.edges).map (fun r => r.2.1) == .ok ⟨0, 0, 0, 0⟩) = true := by decide +kernel
  obtain ⟨h, hrun, hh⟩ := (Option.any_eq_true _ _).mp hcount
  obtain ⟨hdead, hstats⟩ := Bool.and_eq_true_iff.mp hh
  obtain ⟨rel', recs, hv, -⟩ := hall postgres deletedEdge h hfresh hrun afterBoth
  rw [hv, eq_of_beq hdead] at hstats
  cases eq_of_beq hstats

end PgEddy
