import PgEddy.Lemmas.NodeReads

/-!
# Which version of a node a reader sees

A reader should see the version of a node whose inserter is itself or had committed before its snapshot, unless the deleter is.
The code looks up the inserter so, but of the deleter it reads one bit, set when the delete was called and never reset.
-/

namespace PgEddy

open Machine

/-- A version is visible to a reader: inserted by the reader or by a transaction committed before the snapshot, and not deleted or
superseded by one. -/
def NodeVersion.visibleTo (x : XactState) (me : Xid) (v : NodeVersion) : Bool :=
  x.seenBy me v.hdr.xmin && (v.unmarked || !x.seenBy me v.hdr.xmax)

/-- Some version of the node is visible to the reader. -/
def SomeVersionVisible (x : XactState) (me : Xid) (nodes : Relation) (nodeId : Int64) : Prop :=
  ∃ lv ∈ versions nodes, lv.2.nodeId = nodeId ∧ lv.2.visibleTo x me = true

/-- `read_node_at_offset` returns exactly one version of the node, over all blocks and offsets. -/
def ReadsExactlyOne (be : Backend) (snapshot : Option Snapshot) (nodes : Relation) (nodeId : Int64) : Prop :=
  ∃! loc, ReadsAt be snapshot nodes nodeId loc

/-- No deleter that is neither the reader nor committed before the snapshot hides the node: if such a deleter has marked a
version whose inserter the reader sees, another version with such an inserter is unmarked. -/
def NotHidden (x : XactState) (me : Xid) (nodes : Relation) (nodeId : Int64) : Prop :=
  (∃ lv ∈ versions nodes, lv.2.nodeId = nodeId ∧ x.seenBy me lv.2.hdr.xmin = true ∧ lv.2.unmarked = false ∧
      x.seenBy me lv.2.hdr.xmax = false) →
    ∃ lv ∈ versions nodes, lv.2.nodeId = nodeId ∧ x.seenBy me lv.2.hdr.xmin = true ∧ lv.2.unmarked = true

instance (x : XactState) (me : Xid) (nodes : Relation) (nodeId : Int64) : Decidable (NotHidden x me nodes nodeId) :=
  inferInstanceAs (Decidable ((∃ lv ∈ versions nodes, _) → ∃ lv ∈ versions nodes, _))

namespace VisibilityAux

variable {h₀ h₁ : HistoryState} {me : Xid} {nodeId : Int64}

/-- A version is read exactly if the reader sees its inserter and it is unmarked. -/
theorem readsAt_iff_unmarked (hi : HistoryInv h₁) (hl : h₀.xact.Later h₁.xact) (me : Xid) (nodeId : Int64)
    (loc : Nat × Nat) :
    ReadsAt (h₁.xact.backend me) (some (h₀.xact.snapshot me)) h₁.store.nodes nodeId loc ↔
      ∃ v, versionAt h₁.store.nodes loc = some v ∧ v.nodeId = nodeId ∧ h₀.xact.seenBy me v.hdr.xmin = true ∧
        v.unmarked = true := by
  rw [readsAt_iff]
  refine exists_congr fun v => and_congr_right fun hv => and_congr_right fun _ => ?_
  have hst := hi.stored loc v hv
  obtain ⟨r, hr⟩ := Option.isSome_iff_exists.mp hst.decodes
  rw [Option.isSome_iff_exists]
  simp only [NodeVersion.read_eq_some, hl.xminVisible_eq me hst.notCommitted hst.notInvalid hst.normal, hr]
  constructor
  · rintro ⟨_, h1, h2, -⟩
    exact ⟨h1, h2⟩
  · rintro ⟨h1, h2⟩
    exact ⟨r, h1, h2, rfl⟩

/-- Exactly one version is read as soon as one is. -/
theorem readsExactlyOne_iff (hi : HistoryInv h₁) (hl : h₀.xact.Later h₁.xact) (me : Xid) (nodeId : Int64) :
    ReadsExactlyOne (h₁.xact.backend me) (some (h₀.xact.snapshot me)) h₁.store.nodes nodeId ↔
      ∃ lv ∈ versions h₁.store.nodes, lv.2.nodeId = nodeId ∧ h₀.xact.seenBy me lv.2.hdr.xmin = true ∧
        lv.2.unmarked = true := by
  constructor
  · rintro ⟨loc, hr, -⟩
    obtain ⟨v, hv, hc⟩ := (readsAt_iff_unmarked hi hl me nodeId loc).mp hr
    exact ⟨(loc, v), (mem_versions hi.sound.nodePages).mpr hv, hc⟩
  · rintro ⟨⟨loc, v⟩, hv, hc⟩
    have hr := (readsAt_iff_unmarked hi hl me nodeId loc).mpr ⟨v, (mem_versions hi.sound.nodePages).mp hv, hc⟩
    exact ⟨loc, hr, fun loc' hr' => hr'.unique hi.sound.unique hr⟩

/-- The reader reads the node exactly when it should, unless the node is hidden. -/
theorem reads_iff_visible_iff (hi : HistoryInv h₁) (hl : h₀.xact.Later h₁.xact) (me : Xid) (nodeId : Int64) :
    (ReadsExactlyOne (h₁.xact.backend me) (some (h₀.xact.snapshot me)) h₁.store.nodes nodeId ↔
        SomeVersionVisible h₀.xact me h₁.store.nodes nodeId) ↔ NotHidden h₀.xact me h₁.store.nodes nodeId := by
  rw [readsExactlyOne_iff hi hl]
  constructor
  · rintro hiff ⟨lv, hm, hid, hins, hmark, hdel⟩
    refine hiff.mpr ⟨lv, hm, hid, ?_⟩
    simp [NodeVersion.visibleTo, hins, hmark, hdel]
  · intro hnot
    constructor
    · rintro ⟨lv, hm, hid, hins, hu⟩
      exact ⟨lv, hm, hid, by simp [NodeVersion.visibleTo, hins, hu]⟩
    · rintro ⟨lv, hm, hid, hvis⟩
      simp only [NodeVersion.visibleTo, Bool.and_eq_true, Bool.or_eq_true, Bool.not_eq_true'] at hvis
      by_cases hu : lv.2.unmarked = true
      · exact ⟨lv, hm, hid, hvis.1, hu⟩
      · exact hnot ⟨lv, hm, hid, hvis.1, by simpa using hu, hvis.2.resolve_left hu⟩

/-- In every state of a history the invariant holds. -/
theorem inv_of_run {pg : PgSys} {ops : List HistoryOp} {h h' : HistoryState} (hi : HistoryInv h)
    (hf : EveryCall (HistoryState.step pg) HistoryOp.Fresh h ops) (hr : run (HistoryState.step pg) h ops = some h') :
    HistoryInv h' :=
  run_invariant (fun _ _ _ hi hf ht => hi.step hf.node (HistoryState.step_cases hi.sound.toWellFormed ht)) hi hf hr

end VisibilityAux

/-- After any history, for a reader whose snapshot is of any earlier moment of it and for any node: exactly one version of the
node is read if and only if some version is visible to the reader, precisely when no deleter that is neither the reader nor
committed before the snapshot hides the node. `find_node_by_id`, the loop over `NodeScanState::next` and `count_nodes` return
just the versions that are read. -/
theorem node_read_iff_visible_iff (pg : PgSys) (before after : List HistoryOp) (h₀ h₁ : HistoryState)
    (hfresh : EveryCall (HistoryState.step pg) HistoryOp.Fresh (.start .empty) (before ++ after))
    (hrun₀ : run (HistoryState.step pg) (.start .empty) before = some h₀)
    (hrun₁ : run (HistoryState.step pg) h₀ after = some h₁) (me : Xid) (nodeId : Int64) :
    let be := h₁.xact.backend me
    let snapshot := some (h₀.xact.snapshot me)
    let nodes := h₁.store.nodes
    ((ReadsExactlyOne be snapshot nodes nodeId ↔ SomeVersionVisible h₀.xact me nodes nodeId) ↔
        NotHidden h₀.xact me nodes nodeId) ∧
      (∀ cache, CacheInRange cache nodes nodeId →
        ((∃ r, findNodeById be cache nodes nodeId snapshot = .ok (some r)) ↔ ReadsExactlyOne be snapshot nodes nodeId)) ∧
      ∃ recs : List NodeRecord, (∀ fuel, recs.length < fuel → (NodeScanState.begin nodes).collect be nodes snapshot fuel = .ok recs) ∧
        (recs.map NodeRecord.nodeId).Nodup ∧
        (nodeId ∈ recs.map NodeRecord.nodeId ↔ ReadsExactlyOne be snapshot nodes nodeId) ∧
        countNodes be nodes snapshot = recs.length := by
  intro be snapshot nodes
  obtain ⟨hf₀, hf₁⟩ := everyCall_append hfresh hrun₀
  have hi₀ := VisibilityAux.inv_of_run historyInv_start hf₀ hrun₀
  have hi₁ := VisibilityAux.inv_of_run hi₀ hf₁ hrun₁
  have hl := HistoryState.later_of_run hi₀.sound.toWellFormed hrun₁
  have hn := hi₁.sound.nodePages
  have hone : ReadsExactlyOne be snapshot nodes nodeId ↔ ∃ loc, ReadsAt be snapshot nodes nodeId loc :=
    ⟨fun ⟨loc, hr, _⟩ => ⟨loc, hr⟩, fun ⟨loc, hr⟩ => ⟨loc, hr, fun _ hr' => hr'.unique hi₁.sound.unique hr⟩⟩
  refine ⟨VisibilityAux.reads_iff_visible_iff hi₁ hl me nodeId, fun cache hc => ?_,
    (nodeReads be snapshot nodes).map (resolved nodes), fun fuel hfuel => ?_, ?_, ?_, ?_⟩
  · rw [hone]
    rcases findNodeById_cases be snapshot hn hi₁.stored hc with ⟨loc, r, hr, hf, -⟩ | ⟨hnone, hf⟩
    · exact iff_of_true ⟨r, hf⟩ ⟨loc, hr⟩
    · refine iff_of_false ?_ fun ⟨loc, hr⟩ => hnone loc hr
      rintro ⟨r, hr⟩
      rw [hf] at hr
      cases hr
  · rw [List.length_map] at hfuel
    refine collect_eq (nodeReads be snapshot nodes) (.begin nodes) fuel hfuel rfl (Nat.le_refl 1)
      (remaining_begin be snapshot nodes) fun r hr => ?_
    obtain ⟨⟨loc, v⟩, hm, hr⟩ := List.mem_filterMap.mp hr
    exact resolveOverflow_eq (overflow_of_read hi₁.stored ((mem_versions hn).mp hm) hr)
  · simp only [List.map_map, Function.comp_def, nodeId_resolved]
    exact nodeReads_ids_nodup hn hi₁.sound.unique
  · simp only [List.map_map, Function.comp_def, nodeId_resolved, hone]
    exact mem_nodeReads_ids hn
  · rw [List.length_map, countNodes_eq]

/-- Transaction 3 inserts two nodes and commits, transaction 4 updates node 1 and is still running. -/
def runningUpdate : List HistoryOp :=
  [.begin, .call (.insertNode 3 1 [] []), .call (.insertNode 3 2 [5] [1, 2]), .commit 3, .begin,
    .call (.updateNode 4 .empty 1 [6] [])]

theorem node_read_iff_visible_iff_running_update :
    ∃ h, run (HistoryState.step postgres) (.start .empty) runningUpdate = some h ∧
      ((ReadsExactlyOne (h.xact.backend 4) (some (h.xact.snapshot 4)) h.store.nodes 1 ↔
        SomeVersionVisible h.xact 4 h.store.nodes 1) ↔ NotHidden h.xact 4 h.store.nodes 1) := by
  have hsome : (run (HistoryState.step postgres) (.start .empty) runningUpdate).isSome = true := by decide +kernel
  obtain ⟨h, hrun⟩ := Option.isSome_iff_exists.mp hsome
  exact ⟨h, hrun, (node_read_iff_visible_iff postgres runningUpdate [] h h (by decide +kernel) hrun rfl 4 1).1⟩

/-- Transaction 3 inserts node 1 and commits, transaction 4 deletes the node and aborts, transaction 5 reads. -/
def abortedDelete : List HistoryOp :=
  [.begin, .call (.insertNode 3 1 [] []), .commit 3, .begin, .call (.deleteNode 4 .empty 1), .abort 4, .begin]

/-- The version of node 1 is visible to transaction 5 and is not read. -/
theorem aborted_delete_hides_node :
    ∃ h, run (HistoryState.step postgres) (.start .empty) abortedDelete = some h ∧
      EveryCall (HistoryState.step postgres) HistoryOp.Fresh (.start .empty) abortedDelete ∧
      ¬(ReadsExactlyOne (h.xact.backend 5) (some (h.xact.snapshot 5)) h.store.nodes 1 ↔
        SomeVersionVisible h.xact 5 h.store.nodes 1) := by
  have hfresh : EveryCall (HistoryState.step postgres) HistoryOp.Fresh (.start .empty) abortedDelete := by decide +kernel
  have hhidden : (run (HistoryState.step postgres) (.start .empty) abortedDelete).any
      (fun h => decide (¬NotHidden h.xact 5 h.store.nodes 1)) = true := by decide +kernel
  obtain ⟨h, hrun, hnot⟩ := (Option.any_eq_true _ _).mp hhidden
  have hinv := VisibilityAux.inv_of_run historyInv_start hfresh hrun
  refine ⟨h, hrun, hfresh, ?_⟩
  rw [VisibilityAux.reads_iff_visible_iff hinv (XactState.Later.refl _)]
  exact of_decide_eq_true hnot

end PgEddy
