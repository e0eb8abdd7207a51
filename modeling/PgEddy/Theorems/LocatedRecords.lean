import PgEddy.Lemmas.Contents

/-!
# Where a node is and what it says

`find_node_location` takes the first version of a node that has no deleter, whoever wrote it; `find_node_by_id` looks up the
inserter as well. When transactions come one after another they part on what an aborted transaction has written.
-/

namespace PgEddy

open Machine

/-- The record that is returned is the version at the location, with its properties, and the slot is the one it names. -/
def ReturnedFrom (be : Backend) (snapshot : Option Snapshot) (nodes : Relation) (r : NodeRecord) : Nat × Nat × Nat → Prop
  | (blk, off, slot) => ∃ page rec, nodes[blk]? = some page ∧ readNodeAtOffset be page snapshot off = some rec ∧
      resolveOverflow nodes rec = .ok r ∧ rec.adjSlotIdx = slot

/-- The transaction that runs alone, or a session without a transaction id when none runs. -/
def XactState.ReadsAlone (x : XactState) (me : Xid) : Prop :=
  (x.running me = true ∨ me = invalidTransactionId) ∧ ∀ t, x.running t = true → t = me

/-- For the reader, for every node and every cache: `find_node_location` returns a location if and only if `find_node_by_id`
returns a record, and then it is the location of the version that is returned. -/
def LocationsAgree (h : HistoryState) : Prop :=
  ∀ me, h.xact.ReadsAlone me → ∀ cache nodeId, CacheInRange cache h.store.nodes nodeId →
    let located := findNodeLocation cache h.store.nodes nodeId
    let found := findNodeById (h.xact.backend me) cache h.store.nodes nodeId (some (h.xact.snapshot me))
    ((∃ loc, located = .ok (some loc)) ↔ ∃ r, found = .ok (some r)) ∧
      ∀ loc r, located = .ok (some loc) → found = .ok (some r) →
        ReturnedFrom (h.xact.backend me) (some (h.xact.snapshot me)) h.store.nodes r loc

/-- A transaction begins when no other one runs. -/
def HistoryOp.InTurn (h : HistoryState) : HistoryOp → Prop
  | .begin => ∀ t < h.xact.nextXid, h.xact.running t = false
  | _ => True

instance (h : HistoryState) : DecidablePred (HistoryOp.InTurn h)
  | .begin => inferInstanceAs (Decidable (∀ t < h.xact.nextXid, h.xact.running t = false))
  | .call _ | .commit _ | .abort _ | .updateEdgeProps .. => .isTrue trivial

/-- A transaction that aborts has written no version of a node that is still without a deleter. -/
def HistoryOp.LeavesNoVersion (h : HistoryState) : HistoryOp → Prop
  | .abort xid => ∀ lv ∈ versions h.store.nodes, lv.2.unmarked = true → lv.2.hdr.xmin ≠ xid
  | _ => True

namespace LocatedAux

/-- Every version has an inserter that has begun, and at most one transaction runs. -/
structure Inv (h : HistoryState) : Prop extends HistoryInv h where
  begun : ∀ loc v, versionAt h.store.nodes loc = some v → v.hdr.xmin < h.xact.nextXid
  alone : ∀ t u, h.xact.running t = true → h.xact.running u = true → t = u

/-- No version without a deleter was written by a transaction that has aborted. -/
def NoneAborted (h : HistoryState) : Prop :=
  ∀ loc v, versionAt h.store.nodes loc = some v → v.unmarked = true → h.xact.status v.hdr.xmin ≠ .aborted

theorem inv_start : Inv (HistoryState.start Store.empty) where
  toHistoryInv := historyInv_start
  begun := by
    intro loc v hv
    simp [HistoryState.start, versionAt, Store.empty] at hv
  alone := by
    intro t u ht
    obtain ⟨h3, hlt, -⟩ := XactState.running_iff.mp ht
    exact absurd hlt (Nat.not_lt.mpr h3)

theorem noneAborted_start : NoneAborted (HistoryState.start Store.empty) := by
  intro loc v hv
  simp [HistoryState.start, versionAt, Store.empty] at hv

/-! ## The two lookups -/

section

variable {h : HistoryState} {me : Xid} {cache : LocationCache} {nodeId : Int64}

/-- The node is located exactly if it has a version without a deleter. -/
theorem located_iff (hi : Inv h) (hc : CacheInRange cache h.store.nodes nodeId) :
    (∃ loc, findNodeLocation cache h.store.nodes nodeId = .ok (some loc)) ↔
      ∃ loc v, versionAt h.store.nodes loc = some v ∧ v.nodeId = nodeId ∧ v.unmarked = true := by
  have hn := hi.sound.nodePages
  constructor
  · rintro ⟨⟨blk, off, slot⟩, hloc⟩
    obtain ⟨v, hv, hu, hid, -⟩ := located_of_findNodeLocation hn hloc
    exact ⟨(blk, off), v, hv, hid, hu⟩
  · rintro ⟨⟨blk, off⟩, v, hv, hid, hu⟩
    refine ⟨(blk, off, v.slot), ?_⟩
    rw [findNodeLocation_eq hn hi.sound.unique, scanNodeLocation_of_located hn hi.sound.unique ⟨v, hv, hu, hid, rfl⟩]
    cases hcn : cache nodeId with
    | none => rfl
    | some bo =>
      obtain ⟨b, o⟩ := bo
      exact if_pos (hc b o hcn)

/-- The node is found exactly if a version without a deleter was written by the reader or by a transaction that has committed. -/
theorem found_iff (hi : Inv h) (hc : CacheInRange cache h.store.nodes nodeId) :
    (∃ r, findNodeById (h.xact.backend me) cache h.store.nodes nodeId (some (h.xact.snapshot me)) = .ok (some r)) ↔
      ∃ loc v, versionAt h.store.nodes loc = some v ∧ v.nodeId = nodeId ∧ v.unmarked = true ∧
        h.xact.seenBy me v.hdr.xmin = true := by
  have hread : ∀ loc v, versionAt h.store.nodes loc = some v →
      ((v.read (h.xact.backend me) (some (h.xact.snapshot me))).isSome ↔
        v.unmarked = true ∧ h.xact.seenBy me v.hdr.xmin = true) := by
    intro loc v hv
    have hst := hi.stored loc v hv
    obtain ⟨rec, hrec⟩ := Option.isSome_iff_exists.mp hst.decodes
    rw [Option.isSome_iff_exists]
    simp only [NodeVersion.read_eq_some,
      (XactState.Later.refl h.xact).xminVisible_eq me hst.notCommitted hst.notInvalid hst.normal, hrec]
    exact ⟨fun ⟨_, hseen, hu, _⟩ => ⟨hu, hseen⟩, fun ⟨hu, hseen⟩ => ⟨rec, hseen, hu, rfl⟩⟩
  constructor
  · rintro ⟨r, hf⟩
    obtain ⟨loc, v, rec, hv, hrec, hid, -⟩ := findNodeById_eq_some hi.sound.nodePages hf
    exact ⟨loc, v, hv, (NodeVersion.nodeId_of_read hrec).symm.trans hid, (hread loc v hv).mp (Option.isSome_iff_exists.mpr ⟨rec, hrec⟩)⟩
  · rintro ⟨loc, v, hv, hid, hseen⟩
    have hat := readsAt_iff.mpr ⟨v, hv, hid, (hread loc v hv).mpr hseen⟩
    rcases findNodeById_cases (h.xact.backend me) (some (h.xact.snapshot me)) hi.sound.nodePages hi.stored hc with
      ⟨_, r, -, hf, -⟩ | ⟨hnone, -⟩
    · exact ⟨r, hf⟩
    · exact absurd hat (hnone loc)

/-- What both lookups return is of one version. -/
theorem returnedFrom (hi : Inv h) {be : Backend} {snapshot : Option Snapshot} {loc : Nat × Nat × Nat} {r : NodeRecord}
    (hl : findNodeLocation cache h.store.nodes nodeId = .ok (some loc))
    (hf : findNodeById be cache h.store.nodes nodeId snapshot = .ok (some r)) :
    ReturnedFrom be snapshot h.store.nodes r loc := by
  obtain ⟨blk, off, slot⟩ := loc
  obtain ⟨v, hv, hu, hid, hslot⟩ := located_of_findNodeLocation hi.sound.nodePages hl
  obtain ⟨loc', v', rec, hv', hrec, hid', hres⟩ := findNodeById_eq_some hi.sound.nodePages hf
  have hu' := (NodeVersion.read_eq_some.mp hrec).2.1
  have hsame := hi.sound.unique (blk, off) loc' v v' hv hv' hu hu'
    (hid.trans (hid'.symm.trans (NodeVersion.nodeId_of_read hrec)))
  subst hsame
  cases hv.symm.trans hv'
  obtain ⟨page, hp, hpv⟩ := versionAt_eq_some.mp hv
  refine ⟨page, rec, hp, ?_, hres, ?_⟩
  · rw [readNodeAtOffset_eq, hpv, Option.bind_some, hrec]
  · rw [← hslot]
    have hdecode := (NodeVersion.read_eq_some.mp hrec).2.2
    simp only [decodeNode] at hdecode
    split at hdecode
    · cases hdecode
    · split at hdecode
      · cases hdecode
      · cases hdecode
        rfl

/-- The lookups agree exactly if nothing without a deleter was written by a transaction that has aborted. -/
theorem locationsAgree_iff (hi : Inv h) : LocationsAgree h ↔ NoneAborted h := by
  constructor
  · intro hagree loc v hv hu habort
    obtain ⟨me, hme⟩ : ∃ me, h.xact.ReadsAlone me := by
      by_cases hrun : ∃ t, h.xact.running t = true
      · obtain ⟨me, hme⟩ := hrun
        exact ⟨me, .inl hme, fun t ht => hi.alone t me ht hme⟩
      · exact ⟨invalidTransactionId, .inr rfl, fun t ht => absurd ⟨t, ht⟩ hrun⟩
    have hc : CacheInRange .empty h.store.nodes v.nodeId := nofun
    obtain ⟨hiff, -⟩ := hagree me hme .empty v.nodeId hc
    obtain ⟨loc', v', hv', hid', hu', hseen⟩ := (found_iff hi hc).mp (hiff.mp ((located_iff hi hc).mpr ⟨loc, v, hv, rfl, hu⟩))
    obtain rfl := hi.sound.unique loc loc' v v' hv hv' hu hu' hid'.symm
    cases hv.symm.trans hv'
    simp only [XactState.seenBy, Bool.or_eq_true, XactState.didCommit_iff, habort, reduceCtorEq, and_false, or_false] at hseen
    have hcur : v.hdr.xmin = me := eq_of_beq hseen
    rcases hme.1 with hrun | hnone
    · rw [← hcur, XactState.running_iff, habort] at hrun
      cases hrun.2.2
    · have h3 := (hi.stored loc v hv).normal
      rw [hcur, hnone] at h3
      exact absurd h3 (by decide)
  · intro hnone me hme cache nodeId hc
    refine ⟨?_, fun loc r => returnedFrom hi⟩
    rw [located_iff hi hc, found_iff hi hc]
    constructor
    · rintro ⟨loc, v, hv, hid, hu⟩
      refine ⟨loc, v, hv, hid, hu, ?_⟩
      have h3 := (hi.stored loc v hv).normal
      have hlt := hi.begun loc v hv
      cases hst : h.xact.status v.hdr.xmin with
      | inProgress =>
        have hcur := hme.2 _ (XactState.running_iff.mpr ⟨h3, hlt, hst⟩)
        simp [XactState.seenBy, Backend.isCurrent, XactState.backend, hcur]
      | committed =>
        have hdid := (@XactState.didCommit_iff h.xact me v.hdr.xmin).mpr ⟨h3, hlt, hst⟩
        simp [XactState.seenBy, hdid]
      | aborted => exact absurd hst (hnone loc v hv hu)
    · rintro ⟨loc, v, hv, hid, hu, -⟩
      exact ⟨loc, v, hv, hid, hu⟩

end

/-! ## One step -/

theorem running_begin {x : XactState} {t : Xid} (h : x.begin.running t = true) : t = x.nextXid ∨ x.running t = true := by
  obtain ⟨h3, hlt, hst⟩ := XactState.running_iff.mp h
  by_cases heq : t = x.nextXid
  · exact .inl heq
  · simp only [XactState.begin, if_neg heq] at hlt hst
    exact .inr (XactState.running_iff.mpr ⟨h3, Nat.lt_of_le_of_ne (Nat.le_of_lt_succ hlt) heq, hst⟩)

theorem running_finish {x : XactState} {xid t : Xid} {st : XactStatus} (hst : st ≠ .inProgress)
    (h : (x.finish xid st).running t = true) : x.running t = true := by
  obtain ⟨h3, hlt, hs⟩ := XactState.running_iff.mp h
  simp only [XactState.finish] at hlt hs
  split at hs
  · exact absurd hs hst
  · exact XactState.running_iff.mpr ⟨h3, hlt, hs⟩

/-- Transactions that begin in turn run one at a time. -/
theorem alone_step {pg : PgSys} {h h' : HistoryState} {op : HistoryOp}
    (hi : ∀ t u, h.xact.running t = true → h.xact.running u = true → t = u) (hf : op.InTurn h) (ht : h.step pg op = some h') :
    ∀ t u, h'.xact.running t = true → h'.xact.running u = true → t = u := by
  intro t u htr hur
  cases op with
  | begin =>
    cases ht
    have hnone : ∀ w, h.xact.running w = true → False := by
      intro w hw
      rw [hf w (XactState.running_iff.mp hw).2.1] at hw
      cases hw
    rcases running_begin htr with rfl | htr
    · rcases running_begin hur with rfl | hur
      · rfl
      · exact (hnone u hur).elim
    · exact (hnone t htr).elim
  | commit xid | abort xid =>
    simp only [HistoryState.step] at ht
    split at ht
    · cases ht
      exact hi t u (running_finish (by simp) htr) (running_finish (by simp) hur)
    · cases ht
  | call op =>
    simp only [HistoryState.step] at ht
    split at ht
    · obtain ⟨s, -, rfl⟩ := Option.map_eq_some_iff.mp ht
      exact hi t u htr hur
    · cases ht
  | updateEdgeProps =>
    simp only [HistoryState.step] at ht
    split at ht
    · cases ht
      exact hi t u htr hur
    · cases ht

theorem Inv.step {pg : PgSys} {h h' : HistoryState} {op : HistoryOp} (hi : Inv h) (hf : op.Fresh h ∧ op.InTurn h)
    (ht : h.step pg op = some h') : Inv h' := by
  have hs := HistoryState.step_cases hi.sound.toWellFormed ht
  refine ⟨hi.toHistoryInv.step hf.1.node hs, fun loc v hv => ?_, alone_step hi.alone hf.2 ht⟩
  cases hs with
  | xact hl hst => exact Nat.lt_of_lt_of_le (hi.begun loc v (hst ▸ hv)) hl.nextXid
  | @call op hr hx he =>
    rw [hx]
    refine he.versions hi.begun (fun _ _ hb => hb) (fun _ _ _ _ _ _ _ _ => ?_) loc v hv
    exact (XactState.running_iff.mp hr).2.1
  | props _ hx _ _ _ _ hst =>
    rw [hst] at hv
    rw [hx]
    exact hi.begun loc v hv

/-- What aborted transactions have left changes only when one aborts, by the versions it leaves. -/
theorem noneAborted_step {pg : PgSys} {h h' : HistoryState} {op : HistoryOp} (hi : Inv h) (hnone : NoneAborted h)
    (ht : h.step pg op = some h') : NoneAborted h' ↔ op.LeavesNoVersion h := by
  have hn := hi.sound.nodePages
  cases op with
  | begin =>
    cases ht
    refine iff_of_true (fun loc v hv hu => ?_) trivial
    have hlt := hi.begun loc v hv
    simp only [XactState.begin, if_neg (Nat.ne_of_lt hlt)]
    exact hnone loc v hv hu
  | commit xid =>
    simp only [HistoryState.step] at ht
    split at ht
    · cases ht
      refine iff_of_true (fun loc v hv hu => ?_) trivial
      simp only [XactState.finish]
      split
      · simp
      · exact hnone loc v hv hu
    · cases ht
  | abort xid =>
    simp only [HistoryState.step] at ht
    split at ht
    · cases ht
      constructor
      · rintro habort ⟨loc, v⟩ hmem hu rfl
        exact habort loc v ((mem_versions hn).mp hmem) hu (by simp [XactState.finish])
      · intro hleft loc v hv hu
        have hne := hleft (loc, v) ((mem_versions hn).mpr hv) hu
        simp only [XactState.finish, if_neg hne]
        exact hnone loc v hv hu
    · cases ht
  | call op =>
    simp only [HistoryState.step] at ht
    split at ht
    · next hr =>
      obtain ⟨s, hs, rfl⟩ := Option.map_eq_some_iff.mp ht
      refine iff_of_true (fun loc v => ?_) trivial
      refine (GraphOp.effect hi.sound.toWellFormed hs).versions hnone (fun _ _ _ hu => by simp at hu)
        (fun _ _ _ _ _ _ _ _ _ => ?_) loc v
      have hrunning := (XactState.running_iff.mp hr).2.2
      simp [newVersion, HeapTupleHeader.fresh, hrunning]
    · cases ht
  | updateEdgeProps xid edgeId newPropBytes =>
    simp only [HistoryState.step] at ht
    split at ht
    · cases ht
      refine iff_of_true ?_ trivial
      rcases updateEdgeProps_cases (h.xact.backend xid) h.store edgeId newPropBytes with
        hs | ⟨_, _, _, -, -, -, -, hs⟩
      · rw [NoneAborted, hs]
        exact hnone
      · rw [NoneAborted, hs]
        exact hnone
    · cases ht

end LocatedAux

/-- In a history of transactions that come one after another, the two lookups agree in every state if and only if no transaction
aborts that has written a version of a node which is still without a deleter. -/
theorem locations_agree_iff (pg : PgSys) (ops : List HistoryOp)
    (hfresh : EveryCall (HistoryState.step pg) HistoryOp.Fresh (.start .empty) ops)
    (hturn : EveryCall (HistoryState.step pg) HistoryOp.InTurn (.start .empty) ops) :
    EveryState (HistoryState.step pg) LocationsAgree (.start .empty) ops ↔
      EveryCall (HistoryState.step pg) HistoryOp.LeavesNoVersion (.start .empty) ops := by
  refine everyState_iff_everyCall (I := LocatedAux.Inv) (fun _ _ _ hi hf ht => hi.step hf ht)
    (fun _ _ _ hi hagree hf ht => ?_) LocatedAux.inv_start ((LocatedAux.locationsAgree_iff LocatedAux.inv_start).mpr
      LocatedAux.noneAborted_start) (hfresh.and hturn)
  rw [LocatedAux.locationsAgree_iff (hi.step hf ht)]
  exact LocatedAux.noneAborted_step hi ((LocatedAux.locationsAgree_iff hi).mp hagree) ht

/-- Transaction 3 inserts two nodes and commits, transaction 4 updates one and commits, transaction 5 deletes the other and
aborts. -/
def nodesInTurn : List HistoryOp :=
  [.begin, .call (.insertNode 3 1 [] []), .call (.insertNode 3 2 [5] [1, 2]), .commit 3, .begin,
    .call (.updateNode 4 .empty 1 [6] []), .commit 4, .begin, .call (.deleteNode 5 .empty 2), .abort 5]

theorem locations_agree_iff_nodes_in_turn :
    EveryState (HistoryState.step postgres) LocationsAgree (.start .empty) nodesInTurn ↔
      EveryCall (HistoryState.step postgres) HistoryOp.LeavesNoVersion (.start .empty) nodesInTurn :=
  locations_agree_iff postgres nodesInTurn (by decide +kernel) (by decide +kernel)

/-- Transaction 3 inserts a node and aborts. -/
def abortedInsert : List HistoryOp := [.begin, .call (.insertNode 3 1 [] []), .abort 3]

/-- The node is located although it is not found. -/
theorem aborted_insert_is_located :
    ¬∀ (pg : PgSys) (ops : List HistoryOp), EveryCall (HistoryState.step pg) HistoryOp.Fresh (.start .empty) ops →
      EveryCall (HistoryState.step pg) HistoryOp.InTurn (.start .empty) ops →
      EveryState (HistoryState.step pg) LocationsAgree (.start .empty) ops := by
  intro h
  have hevery := h postgres abortedInsert (by decide +kernel) (by decide +kernel)
  have hpart : (run (HistoryState.step postgres) (.start .empty) abortedInsert).any (fun h =>
      decide (findNodeLocation .empty h.store.nodes 1 = .ok (some (0, 1, 0)) ∧
        findNodeById (h.xact.backend 0) .empty h.store.nodes 1 (some (h.xact.snapshot 0)) = .ok none ∧
        ∀ t < h.xact.nextXid, h.xact.running t = false)) = true := by decide +kernel
  obtain ⟨s, hrun, hs⟩ := (Option.any_eq_true _ _).mp hpart
  obtain ⟨hlocated, hfound, hnone⟩ := of_decide_eq_true hs
  have hagree : LocationsAgree s := EveryState.of_run (by rwa [List.append_nil]) hrun
  have halone : s.xact.ReadsAlone 0 := by
    refine ⟨.inr rfl, fun t ht => ?_⟩
    rw [hnone t (XactState.running_iff.mp ht).2.1] at ht
    cases ht
  obtain ⟨r, hr⟩ := (hagree 0 halone .empty 1 nofun).1.mp ⟨_, hlocated⟩
  rw [hfound] at hr
  cases hr

end PgEddy
