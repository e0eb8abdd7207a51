import PgEddy.Lemmas.MirrorSteps

/-!
# Mirror and change stream follow the store

Over a history of transactions that all commit, the mirror tables are those that a rebuild from the store would give, and a
replica that applies the emitted mutations one after another, each old image checked against its own row, holds the same rows.
-/

namespace PgEddy

open ChangeLog Machine

variable {J : Type}

/-- The ids a call hands out are new to the store. -/
def MutationStep.Fresh (st : MutationState J) : MutationStep → Prop
  | .call _ _ _ (.insertNode nodeId _ _) => ∀ lv ∈ versions st.graph.store.nodes, lv.2.nodeId ≠ nodeId
  | .call _ _ _ (.insertEdge edgeId _ _ _ _) => ∀ e ∈ edgeItems st.graph.store.edges, e.edgeId ≠ edgeId
  | _ => True

instance (st : MutationState J) : DecidablePred (MutationStep.Fresh st)
  | .call _ _ _ (.insertNode nodeId _ _) =>
    inferInstanceAs (Decidable (∀ lv ∈ versions st.graph.store.nodes, lv.2.nodeId ≠ nodeId))
  | .call _ _ _ (.insertEdge edgeId _ _ _ _) =>
    inferInstanceAs (Decidable (∀ e ∈ edgeItems st.graph.store.edges, e.edgeId ≠ edgeId))
  | .begin | .commit _ | .call _ _ _ (.updateNode ..) | .call _ _ _ (.deleteNodeById _) | .call _ _ _ (.updateEdgeProps ..)
  | .call _ _ _ (.deleteEdge _) | .call _ _ _ .clear => .isTrue trivial

namespace MirrorReplicaAux

variable {env : Surroundings J}

/-- What holds in every state of such a history. -/
structure MirrorInv (env : Surroundings J) (st : MutationState J) : Prop where
  store : StoreInv st.xact st.graph.store
  follows : st.graph.Follows env
  noAbort : ∀ t, 3 ≤ t → t < st.xact.nextXid → st.xact.status t ≠ .aborted

theorem mirrorInv_start : MirrorInv env MutationState.start where
  store := StoreInv.nil _ _
  follows := ⟨Replica.empty, rfl, rfl, holds_nil fun _ => not_hasNode_nil, holds_nil fun _ => not_hasEdge_nil⟩
  noAbort t h3 hlt := absurd h3 (Nat.not_le.mpr hlt)

theorem mirrorInv_call {st : MutationState J} (hi : MirrorInv env st) {xid : Xid} {cache : LocationCache}
    {snapshot : Option Snapshot} {c : MutationCall} (hf : MutationStep.Fresh st (.call xid cache snapshot c))
    (hr : st.xact.running xid = true) {g : MirroredStore J}
    (h : c.run env ⟨st.xact.backend xid, cache, snapshot⟩ st.graph = .ok g) : StoreInv st.xact g.store ∧ g.Follows env := by
  cases c with
  | insertNode nodeId labelIds properties => exact mirrored_insertNode hi.store hi.follows hr hf h
  | updateNode nodeId labelIds properties => exact mirrored_updateNode hi.store hi.follows hr h
  | deleteNodeById nodeId => exact mirrored_deleteNodeById hi.store hi.follows hr h
  | insertEdge edgeId relTypeId src tgt properties => exact mirrored_insertEdge hi.store hi.follows hr hf h
  | updateEdgeProps edgeId properties => exact mirrored_updateEdgeProps hi.store hi.follows rfl h
  | deleteEdge edgeId => exact mirrored_deleteEdge hi.store hi.follows hr h
  | clear => exact mirrored_clear hi.follows h

/-- The step lemma. -/
theorem mirrorInv_step (st : MutationState J) (op : MutationStep) (st' : MutationState J) (hi : MirrorInv env st)
    (hf : MutationStep.Fresh st op) (ht : st.step env op = some st') : MirrorInv env st' := by
  cases op with
  | begin =>
    cases ht
    refine ⟨hi.store.later (Nat.le_succ _), hi.follows, fun t h3 hlt => ?_⟩
    simp only [XactState.begin] at hlt ⊢
    split
    · simp
    · next hne => exact hi.noAbort t h3 (Nat.lt_of_le_of_ne (Nat.le_of_lt_succ hlt) hne)
  | commit xid =>
    simp only [MutationState.step] at ht
    split at ht
    · cases ht
      refine ⟨hi.store.later (Nat.le_refl _), hi.follows, fun t h3 hlt => ?_⟩
      simp only [XactState.finish]
      split
      · simp
      · exact hi.noAbort t h3 hlt
    · cases ht
  | call xid cache snapshot c =>
    simp only [MutationState.step] at ht
    split at ht
    · next hr =>
      split at ht
      · next g hc =>
        cases ht
        obtain ⟨hstore, hfollows⟩ := mirrorInv_call hi hf hr hc
        exact ⟨hstore, hfollows, hi.noAbort⟩
      · cases ht
    · cases ht

/-! ## The rebuild -/

section Rebuild

variable {st : MutationState J} {me : Xid}

/-- When no other transaction is running, a reader sees what every transaction wrote. -/
theorem seenBy_of_quiet (hi : MirrorInv env st) (hquiet : ∀ t, st.xact.running t = true → t = me) {hdr : HeapTupleHeader}
    (hw : hdr.WrittenBy st.xact) : st.xact.seenBy me hdr.xmin = true := by
  by_cases hme : hdr.xmin = me
  · simp [XactState.seenBy, Backend.isCurrent, XactState.backend, hme]
  · have hcommitted : st.xact.status hdr.xmin = .committed := by
      cases hs : st.xact.status hdr.xmin with
      | inProgress => exact absurd (hquiet _ (XactState.running_iff.mpr ⟨hw.normal, hw.begun, hs⟩)) hme
      | committed => rfl
      | aborted => exact absurd hs (hi.noAbort _ hw.normal hw.begun)
    rw [XactState.seenBy, XactState.didCommit_iff.mpr ⟨hw.normal, hw.begun, hcommitted⟩, Bool.or_true]

theorem xminVisible_of_quiet (hi : MirrorInv env st) (hquiet : ∀ t, st.xact.running t = true → t = me)
    (loc : Nat × Nat) (v : NodeVersion) (hv : versionAt st.graph.store.nodes loc = some v) :
    xminVisible (st.xact.backend me) (some (st.xact.snapshot me)) v.hdr = true := by
  have hw := hi.store.nodesWritten loc v hv
  rw [(XactState.Later.refl st.xact).xminVisible_eq me hw.notCommitted hw.notInvalid hw.normal]
  exact seenBy_of_quiet hi hquiet hw

theorem edgeVisible_of_quiet (hi : MirrorInv env st) (hquiet : ∀ t, st.xact.running t = true → t = me)
    (e : EdgeItem) (he : e ∈ edgeItems st.graph.store.edges) : edgeVisible (st.xact.backend me) e.hdr = e.undeleted := by
  have hw := hi.store.edgesWritten e he
  have h0 : ¬e.hdr.xmin = invalidTransactionId := Nat.ne_of_gt (Nat.lt_of_lt_of_le (by decide) hw.normal)
  have hseen := seenBy_of_quiet hi hquiet hw
  rw [XactState.seenBy] at hseen
  simp only [edgeVisible, h0, if_false, hw.notCommitted, hw.notInvalid, Bool.false_eq_true, hseen, Bool.true_and]
  rfl

/-- Records with different ids, written into the mirror one after another. -/
theorem upsertNodeRecords_mirror (records : List NodeRecord) (hids : (records.map NodeRecord.nodeId).Nodup) :
    records.foldl (Mirror.upsertNodeRecord env) Mirror.clear =
      Replica.mirror env.jsonb { nodes := records.map (nodeRow env.names), edges := [] } := by
  have hfold : ∀ (l : List NodeRecord) (r : Replica), l.foldl (Mirror.upsertNodeRecord env) (r.mirror env.jsonb) =
      Replica.mirror env.jsonb { r with nodes := (l.map (nodeRow env.names)).foldl (upsert NodeRow.nodeId) r.nodes } := by
    intro l
    induction l with
    | nil => intro r; rfl
    | cons record l ih =>
      intro r
      rw [List.foldl_cons, upsertNodeRecord_mirror, ih]
      rfl
  have hnodup : (([] ++ records.map (nodeRow env.names)).map NodeRow.nodeId).Nodup := by
    simpa [List.map_map, Function.comp_def] using hids
  rw [show Mirror.clear = Replica.mirror env.jsonb Replica.empty from rfl, hfold]
  simp only [Replica.empty, foldl_upsert hnodup, List.nil_append]

theorem upsertEdgeRecords_mirror (nodes : List NodeRow) (records : List EdgeRecord)
    (hids : ((records.map (edgeRow env.names)).map EdgeRow.relId).Nodup) :
    records.foldl (Mirror.upsertEdgeRecord env) (Replica.mirror env.jsonb { nodes := nodes, edges := [] }) =
      Replica.mirror env.jsonb { nodes := nodes, edges := records.map (edgeRow env.names) } := by
  have hfold : ∀ (l : List EdgeRecord) (r : Replica), l.foldl (Mirror.upsertEdgeRecord env) (r.mirror env.jsonb) =
      Replica.mirror env.jsonb { r with edges := (l.map (edgeRow env.names)).foldl (upsert EdgeRow.relId) r.edges } := by
    intro l
    induction l with
    | nil => intro r; rfl
    | cons record l ih =>
      intro r
      rw [List.foldl_cons, upsertEdgeRecord_mirror, ih]
      rfl
  have hnodup : (([] ++ records.map (edgeRow env.names)).map EdgeRow.relId).Nodup := by rwa [List.nil_append]
  rw [hfold, foldl_upsert hnodup, List.nil_append]

/-- A rebuild with enough rounds gives the rows of the store. -/
theorem rebuild_mirror (hi : MirrorInv env st) (hquiet : ∀ t, st.xact.running t = true → t = me) :
    ∃ r : Replica, Holds NodeRow.nodeId r.nodes (HasNode env.names st.graph.store.nodes) ∧
      Holds EdgeRow.relId r.edges (HasEdge env.names st.graph.store.edges) ∧ ∃ rounds, ∀ fuel, rounds ≤ fuel →
        Mirror.rebuild env (st.xact.backend me) (some (st.xact.snapshot me)) st.graph.store fuel =
          .ok (r.mirror env.jsonb, r.nodes.length + r.edges.length) := by
  have hnodes := hi.store.sound.nodePages
  have hholds := @holds_nodeReads env.names st.graph.store.nodes _ _ hnodes hi.store.sound.unique
    (xminVisible_of_quiet hi hquiet)
  have hscan := scanAllEdges_eq_liveRecords (edgeVisible_of_quiet hi hquiet)
  have hedges := (@holds_liveRecords env.names _ hi.store.ids)
  have hreversed : Holds EdgeRow.relId ((liveRecords st.graph.store.edges).reverse.map (edgeRow env.names))
      (HasEdge env.names st.graph.store.edges) := by
    rw [List.map_reverse]
    refine ⟨?_, fun row => by rw [List.mem_reverse, hedges.mem_iff]⟩
    rw [List.map_reverse]
    exact List.nodup_reverse.mpr hedges.unique
  refine ⟨⟨_, _⟩, hholds, hreversed,
    (nodeReads (st.xact.backend me) (some (st.xact.snapshot me)) st.graph.store.nodes).length + 1, fun fuel hfuel => ?_⟩
  have hids : (((nodeReads (st.xact.backend me) (some (st.xact.snapshot me)) st.graph.store.nodes).map
      (resolved st.graph.store.nodes)).map NodeRecord.nodeId).Nodup := by
    simpa [List.map_map, Function.comp_def] using hholds.unique
  simp only [Mirror.rebuild, collect_begin hi.store.stored hnodes hfuel, ok_bind, hscan, upsertNodeRecords_mirror _ hids]
  rw [upsertEdgeRecords_mirror _ _ hreversed.unique]
  simp only [List.map_map, List.length_map]
  rfl

end Rebuild

end MirrorReplicaAux

open MirrorReplicaAux

/-- For every sequence of mutations in transactions that all commit, with ids new to the store, in any interleaving and with any
location caches and snapshots: the emitted mutations can be applied in order to an empty replica, each old image being its
current row, and the mirror tables are the rows of the replica; and where no other transaction is running, a rebuild of the
mirror, with enough rounds for its scan, gives the same tables up to the order of their rows. -/
theorem mirror_follows_store (env : Surroundings J) (ops : List MutationStep) (st : MutationState J)
    (hfresh : EveryCall (MutationState.step env) MutationStep.Fresh MutationState.start ops)
    (hrun : run (MutationState.step env) MutationState.start ops = some st) :
    (∃ r, Replica.empty.replay st.graph.stream = some r ∧ st.graph.mirror = r.mirror env.jsonb) ∧
      ∀ me, (∀ t, st.xact.running t = true → t = me) → ∃ m mirrored rounds, (∀ fuel, rounds ≤ fuel →
        Mirror.rebuild env (st.xact.backend me) (some (st.xact.snapshot me)) st.graph.store fuel = .ok (m, mirrored)) ∧
          m.ivmNodes.Perm st.graph.mirror.ivmNodes ∧ m.ivmEdges.Perm st.graph.mirror.ivmEdges := by
  have hi : MirrorInv env st := run_invariant mirrorInv_step mirrorInv_start hfresh hrun
  obtain ⟨r, hreplay, hmirror, hnodes, hedges⟩ := hi.follows
  refine ⟨⟨r, hreplay, hmirror⟩, fun me hquiet => ?_⟩
  obtain ⟨q, hqnodes, hqedges, rounds, hrebuild⟩ := rebuild_mirror hi hquiet
  refine ⟨_, _, rounds, hrebuild, ?_, ?_⟩
  · rw [hmirror]
    exact (hqnodes.perm hnodes).map _
  · rw [hmirror]
    exact (hqedges.perm hedges).map _

/-- A JSON library where every map is empty: it writes two braces. -/
def bracesJson : SerdeJson := { toVec := fun _ => .ok [0x7b, 0x7d], fromSlice := fun _ => .error "not read here" }

/-- A small catalog. -/
def smallCatalog : Names where
  labelName id := if id = 5 then "Person" else "City"
  relTypeName _ := "KNOWS"
  propKeyName _ := "name"

/-- The pages of PostgreSQL, and a mirror that keeps the property maps as they are. -/
def plainSurroundings : Surroundings JsonMap := { pg := postgres, names := smallCatalog, serde := bracesJson, jsonb := id }

/-- Two transactions that overlap, on nodes and edges without properties. -/
def twoWriters : List MutationStep :=
  let call (xid : Xid) (c : MutationCall) : MutationStep := .call xid .empty none c
  [.begin, call 3 (.insertNode 1 [5] []), call 3 (.insertNode 2 [] []), .begin, call 4 (.insertNode 9 [6] []),
    call 3 (.updateNode 2 [5] []), call 4 (.insertEdge 1 7 9 9 []), .commit 4, call 3 (.insertEdge 2 7 1 2 []),
    call 3 (.updateEdgeProps 1 []), call 3 (.deleteEdge 2), call 3 (.deleteNodeById 1), .commit 3]

/-- The state `twoWriters` leaves. -/
def afterTwoWriters : MutationState JsonMap :=
  (run (MutationState.step plainSurroundings) MutationState.start twoWriters).getD MutationState.start

/-- Both writers of `twoWriters` commit, and transaction 5 rebuilds the mirror. -/
theorem mirror_follows_two_writers :
    run (MutationState.step plainSurroundings) MutationState.start twoWriters = some afterTwoWriters ∧
      (∃ r, Replica.empty.replay afterTwoWriters.graph.stream = some r ∧ afterTwoWriters.graph.mirror = r.mirror id) ∧
      ∃ m mirrored rounds, (∀ fuel, rounds ≤ fuel →
        Mirror.rebuild plainSurroundings (afterTwoWriters.xact.backend 5) (some (afterTwoWriters.xact.snapshot 5))
          afterTwoWriters.graph.store fuel = .ok (m, mirrored)) ∧
        m.ivmNodes.Perm afterTwoWriters.graph.mirror.ivmNodes ∧ m.ivmEdges.Perm afterTwoWriters.graph.mirror.ivmEdges := by
  have hsome : (run (MutationState.step plainSurroundings) MutationState.start twoWriters).isSome = true := by decide +kernel
  have hrun : run (MutationState.step plainSurroundings) MutationState.start twoWriters = some afterTwoWriters := by
    obtain ⟨st, hst⟩ := Option.isSome_iff_exists.mp hsome
    rw [afterTwoWriters, hst, Option.getD_some]
  have hfresh : EveryCall (MutationState.step plainSurroundings) MutationStep.Fresh MutationState.start twoWriters := by
    decide +kernel
  have hnext : afterTwoWriters.xact.nextXid = 5 := by decide +kernel
  have hended : ∀ t < 5, afterTwoWriters.xact.running t = false := by decide +kernel
  obtain ⟨hreplica, hrebuild⟩ := mirror_follows_store plainSurroundings twoWriters _ hfresh hrun
  refine ⟨hrun, hreplica, hrebuild 5 fun t ht => ?_⟩
  have hlt : t < 5 := hnext ▸ (XactState.running_iff.mp ht).2.1
  rw [hended t hlt] at ht
  cases ht

end PgEddy
