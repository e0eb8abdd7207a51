import PgEddy.Lemmas.Contents
import PgEddy.Lemmas.EdgeGraph

/-!
# What a mutation keeps

A call that returns has done the same thing three times: to the rows of the store, to the mirror tables and to the replica of
whoever reads the stream. An image that the code takes from the store to put it on the stream is a row of the store, so it is
the row of the replica.
-/

namespace PgEddy

open ChangeLog Machine

/-! ## The store of a history in which every transaction commits -/

/-- What a transaction of the history wrote: no hint bits, and an inserter that has begun. -/
structure HeapTupleHeader.WrittenBy (hdr : HeapTupleHeader) (x : XactState) : Prop where
  notCommitted : hdr.xminCommitted = false
  notInvalid : hdr.xminInvalid = false
  normal : 3 ≤ hdr.xmin
  begun : hdr.xmin < x.nextXid

theorem HeapTupleHeader.WrittenBy.later {hdr : HeapTupleHeader} {x y : XactState} (h : hdr.WrittenBy x)
    (hl : x.nextXid ≤ y.nextXid) : hdr.WrittenBy y :=
  ⟨h.notCommitted, h.notInvalid, h.normal, Nat.lt_of_lt_of_le h.begun hl⟩

theorem HeapTupleHeader.WrittenBy.setXmax {hdr : HeapTupleHeader} {x : XactState} (h : hdr.WrittenBy x) (xmax : Xid) :
    (hdr.setXmax xmax).WrittenBy x := ⟨h.notCommitted, h.notInvalid, h.normal, h.begun⟩

/-- A header as a running transaction writes it. -/
theorem writtenBy_fresh {x : XactState} {xid : Xid} (hr : x.running xid = true) (ctid : Option (Nat × Nat)) :
    HeapTupleHeader.WrittenBy { HeapTupleHeader.fresh xid with ctid := ctid } x :=
  ⟨rfl, rfl, (XactState.running_iff.mp hr).1, (XactState.running_iff.mp hr).2.1⟩

/-- What holds of the store. -/
structure StoreInv (x : XactState) (s : Store) : Prop where
  sound : Sound s
  stored : AllStored s.nodes
  ids : DistinctEdgeIds s.edges
  nodesWritten : ∀ loc v, versionAt s.nodes loc = some v → v.hdr.WrittenBy x
  edgesWritten : ∀ e ∈ edgeItems s.edges, e.hdr.WrittenBy x

namespace StoreInv

variable {x : XactState} {s t : Store} {op : GraphOp}

theorem nil (x : XactState) (wal : List WalRecord) : StoreInv x ⟨[], [], wal⟩ where
  sound := ⟨⟨fun p hp => absurd hp List.not_mem_nil, ⟨fun p hp => absurd hp List.not_mem_nil, by simp⟩⟩,
    fun loc loc' v v' hv => by simp [versionAt] at hv⟩
  stored loc v hv := by simp [versionAt] at hv
  ids := List.nodup_nil
  nodesWritten loc v hv := by simp [versionAt] at hv
  edgesWritten e he := by cases he

theorem later {y : XactState} (h : StoreInv x s) (hl : x.nextXid ≤ y.nextXid) : StoreInv y s :=
  { h with
    nodesWritten := fun loc v hv => (h.nodesWritten loc v hv).later hl
    edgesWritten := fun e he => (h.edgesWritten e he).later hl }

/-- A step of the graph store keeps what holds of the headers of the nodes. -/
theorem nodesWritten_effect (h : StoreInv x s) (hr : x.running op.xid = true) (he : op.Effect s t) :
    ∀ loc v, versionAt t.nodes loc = some v → v.hdr.WrittenBy x :=
  he.versions h.nodesWritten (fun _ xid hv => hv.setXmax xid) fun _ _ _ _ _ _ _ _ => writtenBy_fresh hr _

/-- A step of the graph store keeps what holds of the edges. -/
theorem edges_effect (h : StoreInv x s) (hr : x.running op.xid = true) (hf : op.Fresh s) (he : op.Effect s t) :
    DistinctEdgeIds t.edges ∧ ∀ e ∈ edgeItems t.edges, e.hdr.WrittenBy x := by
  cases he with
  | grown _ hedges | inserted _ _ _ _ _ _ _ _ _ hedges | updated _ _ _ _ _ _ _ hedges | marked _ _ hedges =>
    rw [hedges]
    exact ⟨h.ids, h.edgesWritten⟩
  | linked _ _ _ _ _ _ _ hitems =>
    refine ⟨h.ids.append hitems fun d hd => ?_, fun e he => ?_⟩
    · rw [edgeId_newEdge]
      exact hf d hd
    · rw [hitems] at he
      rcases List.mem_append.mp he with he | he
      · exact h.edgesWritten e he
      · cases List.mem_singleton.mp he
        exact writtenBy_fresh hr _
  | @edgeMarked xid _ e _ hmem _ _ _ hedges =>
    have hitems := edgeItems_setXmaxAt hmem xid
    rw [← hedges] at hitems
    refine ⟨h.ids.map _ hitems fun d => ?_, fun d hd => ?_⟩
    · split <;> rfl
    · rw [hitems] at hd
      obtain ⟨d', hd', rfl⟩ := List.mem_map.mp hd
      split
      · exact (h.edgesWritten d' hd').setXmax _
      · exact h.edgesWritten d' hd'

/-- A step of the graph store by a running transaction, with fresh ids. -/
theorem step {pg : PgSys} (h : StoreInv x s) (hr : x.running op.xid = true) (hf : op.Fresh s) (ht : op.step pg s = some t) :
    StoreInv x t := by
  have he := GraphOp.effect h.sound.toWellFormed ht
  obtain ⟨hids, hedges⟩ := h.edges_effect hr hf he
  exact ⟨h.sound.step hf ht, h.stored.effect (XactState.running_iff.mp hr).1 he, hids, h.nodesWritten_effect hr he, hedges⟩

theorem updateEdgeProps (h : StoreInv x s) (xid : Xid) (edgeId : Int64) (propBytes : Bytes) :
    StoreInv x (updateEdgeProps (x.backend xid) s edgeId propBytes).1 := by
  have hitems := edgeItems_updateEdgeProps x xid h.ids edgeId propBytes
  have hids := h.ids.map _ hitems fun e => EdgeItem.edgeId_after x e _
  have hwritten : ∀ e ∈ edgeItems (PgEddy.updateEdgeProps (x.backend xid) s edgeId propBytes).1.edges, e.hdr.WrittenBy x := by
    intro e he
    rw [hitems] at he
    obtain ⟨d, hd, rfl⟩ := List.mem_map.mp he
    simp only [EdgeItem.after]
    split <;> exact h.edgesWritten d hd
  rcases updateEdgeProps_cases (x.backend xid) s edgeId propBytes with hs | ⟨blk, off, page, -, -, -, -, hs⟩
  · rw [hs]
    exact h
  · rw [hs] at hids hwritten ⊢
    exact ⟨⟨⟨h.sound.nodePages, h.sound.edgePages.modifyItem _ _ _⟩, h.sound.unique⟩, h.stored, hids, h.nodesWritten,
      hwritten⟩

/-- A call of the graph store that returns. -/
theorem call {pg : PgSys} {b : Bool} (h : StoreInv x s) (ht : op.call pg s = (t, .ok b)) (hr : x.running op.xid = true)
    (hf : op.Fresh s) : StoreInv x t := by
  have hstep : op.step pg s = some t := by rw [GraphOp.step_of_ok (b := b) (by rw [ht]), ht]
  exact h.step hr hf hstep

end StoreInv

/-! ## Mirror, replica and store -/

section Follows

variable {J : Type} {env : Surroundings J}

/-- The mirror tables and the replica of the stream hold the rows of the store. -/
def MirroredStore.Follows (env : Surroundings J) (g : MirroredStore J) : Prop :=
  ∃ r, Replica.empty.replay g.stream = some r ∧ g.mirror = r.mirror env.jsonb ∧
    Holds NodeRow.nodeId r.nodes (HasNode env.names g.store.nodes) ∧ Holds EdgeRow.relId r.edges (HasEdge env.names g.store.edges)

theorem Replica.replay_snoc {r r' : Replica} {stream : List Mutation} {m : Mutation} (h : r.replay stream = some r') :
    r.replay (stream ++ [m]) = r'.apply m := by
  rw [Replica.replay, List.foldlM_append, ← Replica.replay, h]
  simp

theorem nodeId_ivm (row : NodeRow) : (row.ivm env.jsonb).nodeId = row.nodeId := rfl

theorem relId_ivm (row : EdgeRow) : (row.ivm env.jsonb).relId = row.relId := rfl

theorem upsertNodeRecord_mirror (r : Replica) (record : NodeRecord) :
    (r.mirror env.jsonb).upsertNodeRecord env record =
      Replica.mirror env.jsonb { r with nodes := upsert NodeRow.nodeId r.nodes (nodeRow env.names record) } := by
  simp only [Replica.mirror, Mirror.upsertNodeRecord, Mirror.upsertNode, map_upsert nodeId_ivm]
  rfl

theorem deleteNode_mirror (r : Replica) (nodeId : Int64) :
    (r.mirror env.jsonb).deleteNode nodeId =
      Replica.mirror env.jsonb { r with nodes := remove NodeRow.nodeId r.nodes nodeId } := by
  simp only [Replica.mirror, Mirror.deleteNode, map_remove nodeId_ivm]

theorem upsertEdgeRecord_mirror (r : Replica) (record : EdgeRecord) :
    (r.mirror env.jsonb).upsertEdgeRecord env record =
      Replica.mirror env.jsonb { r with edges := upsert EdgeRow.relId r.edges (edgeRow env.names record) } := by
  simp only [Replica.mirror, Mirror.upsertEdgeRecord, Mirror.upsertEdge, map_upsert relId_ivm]
  rfl

theorem deleteEdge_mirror (r : Replica) (relId : Int64) :
    (r.mirror env.jsonb).deleteEdge relId =
      Replica.mirror env.jsonb { r with edges := remove EdgeRow.relId r.edges relId } := by
  simp only [Replica.mirror, Mirror.deleteEdge, map_remove relId_ivm]

theorem emit_eq_ok {g g' : MirroredStore J} {m : Mutation} (h : g.emit env m = .ok g') :
    g' = { g with stream := g.stream ++ [m] } := by
  simp only [MirroredStore.emit] at h
  split at h
  · cases h
  · exact (Except.ok.inj h).symm

theorem stored_eq_ok {α : Type} {out : Outcome α} {s : Store} {a : α} (h : MirroredStore.stored out = .ok (s, a)) :
    out = (s, .ok a) := by
  obtain ⟨s', r⟩ := out
  cases r with
  | error e => cases h
  | ok b => cases h; rfl

theorem loaded_eq_ok {α : Type} {r : Except PgError α} {a : α} (h : MirroredStore.loaded r = .ok a) : r = .ok a := by
  cases r with
  | error e => cases h
  | ok b => cases h; rfl

theorem captured_eq_ok {α : Type} {old : Option α} {what capture : String} {id : Int64} {a : α}
    (h : MirroredStore.captured old what id capture = .ok a) : old = some a := by
  cases old with
  | none => cases h
  | some b => cases h; rfl

/-- A change of one node: the store changes by it, the mirror is written, and the mutation that says so is emitted. -/
theorem MirroredStore.Follows.node {g g' : MirroredStore J} {t : Store} {mirror : Mirror J} {m : Mutation}
    (hf : g.Follows env) (c : ChangeLog.Change NodeRow) (hfit : c.Fits NodeRow.nodeId (HasNode env.names g.store.nodes))
    (hnodes : ∀ row, HasNode env.names t.nodes row ↔ c.after NodeRow.nodeId (HasNode env.names g.store.nodes) row)
    (hedges : ∀ row, HasEdge env.names t.edges row ↔ HasEdge env.names g.store.edges row)
    (hmirror : ∀ r : Replica, g.mirror = r.mirror env.jsonb →
      mirror = Replica.mirror env.jsonb { r with nodes := c.write NodeRow.nodeId r.nodes })
    (happly : ∀ r : Replica, r.apply m = (c.apply NodeRow.nodeId r.nodes).map (fun nodes => { r with nodes := nodes }))
    (h : MirroredStore.emit env { g with store := t, mirror := mirror } m = .ok g') : g'.Follows env := by
  obtain ⟨r, hreplay, hmir, hn, he⟩ := hf
  rw [emit_eq_ok h]
  refine ⟨{ r with nodes := c.write NodeRow.nodeId r.nodes }, ?_, hmirror r hmir, (Change.holds_write hn c).congr hnodes,
    he.congr hedges⟩
  rw [Replica.replay_snoc hreplay, happly, Change.apply_eq_write hn hfit]
  rfl

/-- A change of one edge. -/
theorem MirroredStore.Follows.edge {g g' : MirroredStore J} {t : Store} {mirror : Mirror J} {m : Mutation}
    (hf : g.Follows env) (c : ChangeLog.Change EdgeRow) (hfit : c.Fits EdgeRow.relId (HasEdge env.names g.store.edges))
    (hnodes : ∀ row, HasNode env.names t.nodes row ↔ HasNode env.names g.store.nodes row)
    (hedges : ∀ row, HasEdge env.names t.edges row ↔ c.after EdgeRow.relId (HasEdge env.names g.store.edges) row)
    (hmirror : ∀ r : Replica, g.mirror = r.mirror env.jsonb →
      mirror = Replica.mirror env.jsonb { r with edges := c.write EdgeRow.relId r.edges })
    (happly : ∀ r : Replica, r.apply m = (c.apply EdgeRow.relId r.edges).map (fun edges => { r with edges := edges }))
    (h : MirroredStore.emit env { g with store := t, mirror := mirror } m = .ok g') : g'.Follows env := by
  obtain ⟨r, hreplay, hmir, hn, he⟩ := hf
  rw [emit_eq_ok h]
  refine ⟨{ r with edges := c.write EdgeRow.relId r.edges }, ?_, hmirror r hmir, hn.congr hnodes,
    (Change.holds_write he c).congr hedges⟩
  rw [Replica.replay_snoc hreplay, happly, Change.apply_eq_write he hfit]
  rfl

/-! ### The calls -/

theorem GraphOp.Effect.edges_eq {s t : Store} {op : GraphOp} (he : op.Effect s t) (hop : op.isEdgeCall = false) :
    t.edges = s.edges := by
  cases he with
  | grown _ hedges | inserted _ _ _ _ _ _ _ _ _ hedges | updated _ _ _ _ _ _ _ hedges | marked _ _ hedges => exact hedges
  | linked | edgeMarked => cases hop

/-- A call on nodes that returns leaves the edges as they are. -/
theorem edges_of_call {s t : Store} {op : GraphOp} {b : Bool} (hw : WellFormed s) (hop : op.isEdgeCall = false)
    (h : op.call env.pg s = (t, .ok b)) : t.edges = s.edges := by
  have hstep : op.step env.pg s = some t := by rw [GraphOp.step_of_ok (b := b) (by rw [h]), h]
  exact (GraphOp.effect hw hstep).edges_eq hop

variable {x : XactState} {caller : Caller} {g g' : MirroredStore J}

theorem mirrored_insertNode (hi : StoreInv x g.store) (hf : g.Follows env) (hr : x.running caller.backend.xid = true)
    {nodeId : Int64} {labelIds : List Int32} {properties : Bytes} (hfresh : ∀ lv ∈ versions g.store.nodes, lv.2.nodeId ≠ nodeId)
    (h : g.insertNode env caller nodeId labelIds properties = .ok g') : StoreInv x g'.store ∧ g'.Follows env := by
  simp only [MirroredStore.insertNode] at h
  obtain ⟨⟨t, loc⟩, hs, h⟩ := bind_eq_ok h
  have hs := stored_eq_ok hs
  have hcall : (GraphOp.insertNode caller.backend.xid nodeId labelIds properties).call env.pg g.store = (t, .ok true) := by
    simp only [GraphOp.call, hs]
    rfl
  have hrow := @hasNode_insertNode env.names env.pg _ g.store t nodeId labelIds properties hi.sound.toWellFormed hi.stored _ hs
  have hnew : ∀ row, HasNode env.names g.store.nodes row → row.nodeId ≠ nodeId := by
    rintro row ⟨l, hl⟩
    obtain ⟨v, -, hv, -⟩ := nodeRowAt_eq_some.mp hl
    rw [nodeId_of_nodeRowAt hl hv]
    exact hfresh (l, v) ((mem_versions hi.sound.nodePages).mpr hv)
  constructor
  · rw [emit_eq_ok h]
    exact hi.call hcall hr hfresh
  · refine hf.node (.insert (nodeRow env.names (writtenNode nodeId labelIds properties))) hnew ?_ ?_ ?_ (fun r => rfl) h
    · intro row
      rw [hrow, Change.after]
      constructor
      · rintro (hold | hold)
        · exact Or.inl ⟨hold, hnew row hold⟩
        · exact Or.inr hold
      · rintro (hold | hold)
        · exact Or.inl hold.1
        · exact Or.inr hold
    · intro row
      rw [edges_of_call hi.sound.toWellFormed rfl hcall]
    · intro r hmir
      rw [hmir, upsertNodeRecord_mirror]
      rfl

theorem mirrored_updateNode (hi : StoreInv x g.store) (hf : g.Follows env) (hr : x.running caller.backend.xid = true)
    {nodeId : Int64} {labelIds : List Int32} {properties : Bytes}
    (h : g.updateNode env caller nodeId labelIds properties = .ok g') : StoreInv x g'.store ∧ g'.Follows env := by
  simp only [MirroredStore.updateNode] at h
  obtain ⟨old, hold, h⟩ := bind_eq_ok h
  obtain ⟨⟨t, updated⟩, hs, h⟩ := bind_eq_ok h
  have hs := stored_eq_ok hs
  have hcall : (GraphOp.updateNode caller.backend.xid caller.cache nodeId labelIds properties).call env.pg g.store =
      (t, .ok updated) := hs
  cases updated with
  | false =>
    cases h
    rw [updateNode_eq_false hi.sound.toWellFormed hs]
    exact ⟨hi, hf⟩
  | true =>
    obtain ⟨old', hcap, h⟩ := bind_eq_ok h
    cases captured_eq_ok hcap
    obtain ⟨hrow, hid⟩ := @hasNode_loadNodeRecord env.names nodeId caller _ old' hi.sound.nodePages (loaded_eq_ok hold)
    constructor
    · rw [emit_eq_ok h]
      exact hi.call hcall hr trivial
    · refine hf.node (.update (nodeRow env.names old') (nodeRow env.names (writtenNode nodeId labelIds properties)))
        ⟨hrow, hid.symm⟩ ?_ ?_ ?_ (fun r => rfl) h
      · intro row
        rw [hasNode_updateNode hi.sound hi.stored hs]
        rfl
      · intro row
        rw [edges_of_call hi.sound.toWellFormed rfl hcall]
      · intro r hmir
        rw [hmir, upsertNodeRecord_mirror]
        rfl

theorem mirrored_deleteNodeById (hi : StoreInv x g.store) (hf : g.Follows env) (hr : x.running caller.backend.xid = true)
    {nodeId : Int64} (h : g.deleteNodeById env caller nodeId = .ok g') : StoreInv x g'.store ∧ g'.Follows env := by
  simp only [MirroredStore.deleteNodeById] at h
  obtain ⟨old, hold, h⟩ := bind_eq_ok h
  obtain ⟨⟨t, deleted⟩, hs, h⟩ := bind_eq_ok h
  have hs := stored_eq_ok hs
  have hcall : (GraphOp.deleteNode caller.backend.xid caller.cache nodeId).call env.pg g.store = (t, .ok deleted) := hs
  cases deleted with
  | false =>
    cases h
    rw [deleteNodeById_eq_false hi.sound.toWellFormed hs]
    exact ⟨hi, hf⟩
  | true =>
    obtain ⟨old', hcap, h⟩ := bind_eq_ok h
    cases captured_eq_ok hcap
    obtain ⟨hrow, hid⟩ := @hasNode_loadNodeRecord env.names nodeId caller _ old' hi.sound.nodePages (loaded_eq_ok hold)
    constructor
    · rw [emit_eq_ok h]
      exact hi.call hcall hr trivial
    · refine hf.node (.delete (nodeRow env.names old')) hrow ?_ ?_ ?_ (fun r => rfl) h
      · intro row
        rw [hasNode_deleteNodeById hi.sound hi.stored hs, Change.after, nodeId_nodeRow, hid]
      · intro row
        rw [edges_of_call hi.sound.toWellFormed rfl hcall]
      · intro r hmir
        rw [hmir, deleteNode_mirror, Change.write, nodeId_nodeRow, hid]

theorem mirrored_insertEdge (hi : StoreInv x g.store) (hf : g.Follows env) (hr : x.running caller.backend.xid = true)
    {edgeId : Int64} {relTypeId : Int32} {src tgt : Int64} {properties : Bytes}
    (hfresh : ∀ e ∈ edgeItems g.store.edges, e.edgeId ≠ edgeId)
    (h : g.insertEdge env caller edgeId relTypeId src tgt properties = .ok g') : StoreInv x g'.store ∧ g'.Follows env := by
  simp only [MirroredStore.insertEdge] at h
  obtain ⟨⟨t, u⟩, hs, h⟩ := bind_eq_ok h
  have hs := stored_eq_ok hs
  have hcall : (GraphOp.insertEdge caller.backend.xid caller.cache edgeId relTypeId src tgt properties).call env.pg g.store =
      (t, .ok true) := by
    simp only [GraphOp.call, hs]
    rfl
  obtain ⟨-, hversions, hoverflow⟩ := insertEdge_spec hi.sound.toWellFormed hs
  have hnew : ∀ row, HasEdge env.names g.store.edges row → row.relId ≠ edgeId := by
    rintro row ⟨r, hr, rfl⟩
    obtain ⟨e, he, -, hrec⟩ := mem_liveRecords.mp hr
    rw [relId_edgeRow, (EdgeItem.record_fields hrec).1]
    exact hfresh e he
  constructor
  · rw [emit_eq_ok h]
    exact hi.call hcall hr hfresh
  · refine hf.edge (.insert (edgeRow env.names (writtenEdge edgeId relTypeId src tgt properties))) hnew ?_ ?_ ?_
      (fun r => rfl) h
    · intro row
      rw [hasNode_congr hi.stored hversions hoverflow]
    · intro row
      rw [hasEdge_insertEdge hi.sound.toWellFormed hs, Change.after]
      constructor
      · rintro (hold | hold)
        · exact Or.inl ⟨hold, hnew row hold⟩
        · exact Or.inr hold
      · rintro (hold | hold)
        · exact Or.inl hold.1
        · exact Or.inr hold
    · intro r hmir
      rw [hmir, upsertEdgeRecord_mirror]
      rfl

theorem mirrored_updateEdgeProps {xid : Xid} (hi : StoreInv x g.store) (hf : g.Follows env)
    (hb : caller.backend = x.backend xid) {edgeId : Int64} {properties : Bytes}
    (h : g.updateEdgeProps env caller edgeId properties = .ok g') : StoreInv x g'.store ∧ g'.Follows env := by
  simp only [MirroredStore.updateEdgeProps, loadEdgeRecord, hb] at h
  obtain ⟨⟨t, updated⟩, hs, h⟩ := bind_eq_ok h
  have hs := stored_eq_ok hs
  have hinv := hi.updateEdgeProps xid edgeId properties
  rw [hs] at hinv
  cases updated with
  | false =>
    cases h
    rw [updateEdgeProps_eq_false hs]
    exact ⟨hi, hf⟩
  | true =>
    obtain ⟨old, hcap, h⟩ := bind_eq_ok h
    have hfind := captured_eq_ok hcap
    obtain ⟨hlive, hid⟩ := mem_liveRecords_of_find hfind
    have hnodes : t.nodes = g.store.nodes := by
      rcases updateEdgeProps_cases (x.backend xid) g.store edgeId properties with hc | ⟨_, _, _, -, -, -, -, hc⟩
      · rw [hs] at hc
        rw [← hc]
      · rw [hs] at hc
        cases hc
        rfl
    constructor
    · rw [emit_eq_ok h]
      exact hinv
    · refine hf.edge (.update (edgeRow env.names old) (edgeRow env.names { old with propBytes := properties }))
        ⟨⟨old, hlive, rfl⟩, rfl⟩ ?_ ?_ ?_ (fun r => rfl) h
      · intro row
        rw [hnodes]
      · intro row
        rw [hasEdge_updateEdgeProps hi.ids hs hfind, Change.after, relId_edgeRow, hid]
      · intro r hmir
        rw [hmir, upsertEdgeRecord_mirror]
        rfl

theorem mirrored_deleteEdge (hi : StoreInv x g.store) (hf : g.Follows env) (hr : x.running caller.backend.xid = true)
    {edgeId : Int64} (h : g.deleteEdge env caller edgeId = .ok g') : StoreInv x g'.store ∧ g'.Follows env := by
  simp only [MirroredStore.deleteEdge, loadEdgeRecord] at h
  obtain ⟨⟨t, deleted⟩, hs, h⟩ := bind_eq_ok h
  have hs := stored_eq_ok hs
  have hcall : (GraphOp.deleteEdge caller.backend.xid edgeId).call env.pg g.store = (t, .ok deleted) := hs
  cases deleted with
  | false =>
    cases h
    rw [deleteEdge_eq_false hs]
    exact ⟨hi, hf⟩
  | true =>
    obtain ⟨old, hcap, h⟩ := bind_eq_ok h
    obtain ⟨hlive, hid⟩ := mem_liveRecords_of_find (captured_eq_ok hcap)
    have hnodes : t.nodes = g.store.nodes := by
      rcases deleteEdge_cases caller.backend.xid g.store edgeId with ⟨hc, -⟩ | ⟨_, -, -, -, hc⟩
      · rw [hs] at hc
        cases hc
      · rw [hs] at hc
        cases hc
        rfl
    constructor
    · rw [emit_eq_ok h]
      exact hi.call hcall hr trivial
    · refine hf.edge (.delete (edgeRow env.names old)) ⟨old, hlive, rfl⟩ ?_ ?_ ?_ (fun r => rfl) h
      · intro row
        rw [hnodes]
      · intro row
        rw [hasEdge_deleteEdge hi.ids hs, Change.after, relId_edgeRow, hid]
      · intro r hmir
        rw [hmir, deleteEdge_mirror, Change.write, relId_edgeRow, hid]

theorem mirrored_clear (hf : g.Follows env) (h : g.clear env = .ok g') : StoreInv x g'.store ∧ g'.Follows env := by
  obtain ⟨r, hreplay, -, -, -⟩ := hf
  rw [emit_eq_ok h]
  refine ⟨StoreInv.nil x g.store.wal, Replica.empty, ?_, rfl, holds_nil fun _ => not_hasNode_nil,
    holds_nil fun _ => not_hasEdge_nil⟩
  rw [Replica.replay_snoc hreplay]
  rfl

end Follows

end PgEddy
