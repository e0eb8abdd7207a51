import PgEddy.Lemmas.Histories
import PgEddy.Lemmas.LiveEdges

/-!
# What becomes of an edge

`delete_edge` and `update_edge_props` touch one edge, the one with the id. So what a history of such calls makes of an edge can
be said edge by edge: deleted for good by the first call that deletes it, whoever calls, else with the properties of the last
update that took effect.
-/

namespace PgEddy

open ByteBuffer Machine

/-! ## Properties rewritten in place -/

section WriteEdgeProps

variable {newPropBytes data : Bytes}

/-- The writes of `update_edge_props`. -/
def propWrites (newPropBytes data : Bytes) : List (Nat × Bytes) :=
  [(offEdgePropInlineLen, leBytes 2 newPropBytes.length),
    (offEdgePropData, List.replicate (data.length - edgeFixedDataSize) 0), (offEdgePropData, newPropBytes)]

theorem writeEdgeProps_eq : writeEdgeProps newPropBytes data = applyWrites data (propWrites newPropBytes data) := by
  simp only [writeEdgeProps, propWrites, applyWrites, List.foldl_cons, List.foldl_nil]

theorem propWrites_inRange (h : edgeFixedDataSize + newPropBytes.length ≤ data.length) :
    InRange data.length (propWrites newPropBytes data) := by
  simp only [edgeFixedDataSize] at h
  simp only [InRange, propWrites, List.forall_mem_cons, List.not_mem_nil, false_implies, implies_true, and_true,
    length_leBytes, List.length_replicate, offEdgePropInlineLen, offEdgePropData, edgeFixedDataSize]
  omega

theorem length_writeEdgeProps (h : edgeFixedDataSize + newPropBytes.length ≤ data.length) :
    (writeEdgeProps newPropBytes data).length = data.length := by
  rw [writeEdgeProps_eq, length_applyWrites (propWrites_inRange h)]

/-- The fields in front of the length of the properties stay. -/
theorem slice_writeEdgeProps_before (h : edgeFixedDataSize + newPropBytes.length ≤ data.length) {o n : Nat}
    (hd : o + n ≤ offEdgePropInlineLen) : slice (writeEdgeProps newPropBytes data) o n = slice data o n := by
  rw [writeEdgeProps_eq]
  refine slice_applyWrites_apart (propWrites_inRange h) ?_
  simp only [offEdgePropInlineLen] at hd
  simp only [Apart, propWrites, List.forall_mem_cons, List.not_mem_nil, false_implies, implies_true, and_true,
    offEdgePropInlineLen, offEdgePropData]
  omega

theorem edgePropLenOf_writeEdgeProps (h : edgeFixedDataSize + newPropBytes.length ≤ data.length)
    (hb : newPropBytes.length ≤ propInlineMax) : edgePropLenOf (writeEdgeProps newPropBytes data) = newPropBytes.length := by
  have hs := slice_applyWrites [] offEdgePropInlineLen (leBytes 2 newPropBytes.length)
    [(offEdgePropData, List.replicate (data.length - edgeFixedDataSize) 0), (offEdgePropData, newPropBytes)]
    (propWrites_inRange h) (by simp [Apart, offEdgePropInlineLen, offEdgePropData])
  rw [length_leBytes] at hs
  simp only [propInlineMax] at hb
  rw [edgePropLenOf, writeEdgeProps_eq]
  exact (congrArg leNat hs).trans (leNat_leBytes_of_lt _ _ (by omega))

theorem slice_writeEdgeProps_props (h : edgeFixedDataSize + newPropBytes.length ≤ data.length) :
    slice (writeEdgeProps newPropBytes data) offEdgePropData newPropBytes.length = newPropBytes := by
  rw [writeEdgeProps_eq]
  exact slice_applyWrites [(offEdgePropInlineLen, leBytes 2 newPropBytes.length),
    (offEdgePropData, List.replicate (data.length - edgeFixedDataSize) 0)] offEdgePropData newPropBytes []
    (propWrites_inRange h) (by simp [Apart])

/-- The rewritten record is the old one with the new properties. -/
theorem decodeEdgeRecord_writeEdgeProps (h : edgeFixedDataSize + newPropBytes.length ≤ data.length)
    (hb : newPropBytes.length ≤ propInlineMax) {blkno off : Nat} {r : EdgeRecord} (hr : decodeEdgeRecord data blkno off = some r) :
    decodeEdgeRecord (writeEdgeProps newPropBytes data) blkno off = some { r with propBytes := newPropBytes } := by
  have hfix : ¬data.length < edgeFixedDataSize := by omega
  have hlen : ¬data.length < edgeFixedDataSize + newPropBytes.length := Nat.not_lt.mpr h
  have hslice : ∀ o n, o + n ≤ offEdgePropInlineLen → slice (writeEdgeProps newPropBytes data) o n = slice data o n :=
    fun o n hd => slice_writeEdgeProps_before h hd
  simp only [decodeEdgeRecord, hfix, if_false] at hr
  split at hr
  · cases hr
  cases hr
  simp only [decodeEdgeRecord, length_writeEdgeProps h, hfix, edgePropLenOf_writeEdgeProps h hb, hlen, if_false,
    slice_writeEdgeProps_props h, edgeIdOf, relTypeIdOf, sourceOf, targetOf, nextOf, if_true, Bool.false_eq_true]
  rw [hslice _ _ (by decide), hslice _ _ (by decide), hslice _ _ (by decide), hslice _ _ (by decide), hslice _ _ (by decide),
    hslice _ _ (by decide), hslice _ _ (by decide), hslice _ _ (by decide)]

end WriteEdgeProps

/-! ## One call and one edge -/

namespace EdgeItem

/-- The item with its properties rewritten. -/
def setProps (e : EdgeItem) (newPropBytes : Bytes) : EdgeItem := { e with data := writeEdgeProps newPropBytes e.data }

/-- `update_edge_props` rewrites the item when it meets it: it is visible to the caller and has the room. -/
def accepts (be : Backend) (newPropBytes : Bytes) (e : EdgeItem) : Bool :=
  newPropBytes.length ≤ propInlineMax && newPropBytes.length ≤ e.data.length - edgeFixedDataSize && (e.read be).isSome

theorem accepts_iff {be : Backend} {newPropBytes : Bytes} {e : EdgeItem} :
    e.accepts be newPropBytes = true ↔ newPropBytes.length ≤ propInlineMax ∧
      newPropBytes.length ≤ e.data.length - edgeFixedDataSize ∧ (e.read be).isSome = true := by
  simp [accepts, and_assoc]

theorem length_of_record {e : EdgeItem} (h : e.record.isSome = true) : edgeFixedDataSize ≤ e.data.length := by
  simp only [record, decodeEdgeRecord] at h
  split at h
  · cases h
  · next hl => exact Nat.not_lt.mp hl

theorem read_setXmax (be : Backend) (e : EdgeItem) (xmax : Xid) : (e.setXmax xmax).read be = none := by
  simp only [read, edgeVisible, setXmax, HeapTupleHeader.setXmax]
  simp

variable {be : Backend} {newPropBytes : Bytes} {e : EdgeItem}

/-- The room an item has, as a bound on its length. -/
theorem room_of_accepts (h : e.accepts be newPropBytes = true) : edgeFixedDataSize + newPropBytes.length ≤ e.data.length := by
  obtain ⟨-, hroom, hread⟩ := accepts_iff.mp h
  obtain ⟨r, hr⟩ := Option.isSome_iff_exists.mp hread
  have hfix := length_of_record (e := e) (by rw [(read_eq_some.mp hr).2]; rfl)
  omega

theorem read_setProps (h : e.accepts be newPropBytes = true) {be' : Backend} {r : EdgeRecord} (hr : e.read be' = some r) :
    (e.setProps newPropBytes).read be' = some { r with propBytes := newPropBytes } := by
  obtain ⟨hv, hrec⟩ := read_eq_some.mp hr
  exact read_eq_some.mpr ⟨hv, decodeEdgeRecord_writeEdgeProps (room_of_accepts h) (accepts_iff.mp h).1 hrec⟩

theorem edgeId_setProps (h : e.accepts be newPropBytes = true) : (e.setProps newPropBytes).edgeId = e.edgeId := by
  simp only [edgeId, setProps, edgeIdOf]
  rw [slice_writeEdgeProps_before (room_of_accepts h) (by decide)]

theorem accepts_setProps (h : e.accepts be newPropBytes = true) (be' : Backend) (bytes : Bytes) :
    (e.setProps newPropBytes).accepts be' bytes = e.accepts be' bytes := by
  have hread : ((e.setProps newPropBytes).read be').isSome = (e.read be').isSome := by
    obtain ⟨r, hr⟩ := Option.isSome_iff_exists.mp (accepts_iff.mp h).2.2
    obtain ⟨r', hr'⟩ : ∃ r', (e.setProps newPropBytes).record = some r' :=
      ⟨_, (read_eq_some.mp (read_setProps h hr)).2⟩
    have hhdr : (e.setProps newPropBytes).hdr = e.hdr := rfl
    simp only [read, (read_eq_some.mp hr).2, hr', hhdr]
    split <;> rfl
  simp only [accepts, hread]
  rw [setProps, length_writeEdgeProps (room_of_accepts h)]

end EdgeItem

/-- The transactions after a step. -/
def XactState.after (x : XactState) : HistoryOp → XactState
  | .begin => x.begin
  | .commit xid => x.finish xid .committed
  | .abort xid => x.finish xid .aborted
  | .call _ | .updateEdgeProps .. => x

/-- An edge after a step. -/
def EdgeItem.after (x : XactState) (e : EdgeItem) : HistoryOp → EdgeItem
  | .call (.deleteEdge xid edgeId) => if e.edgeId = edgeId ∧ e.undeleted = true then e.setXmax xid else e
  | .updateEdgeProps xid edgeId newPropBytes =>
    if e.edgeId = edgeId ∧ e.accepts (x.backend xid) newPropBytes = true then e.setProps newPropBytes else e
  | _ => e

/-- The step begins or ends a transaction, deletes an edge or updates its properties. -/
def HistoryOp.isEdgeWrite : HistoryOp → Bool
  | .begin | .commit _ | .abort _ | .call (.deleteEdge ..) | .updateEdgeProps .. => true
  | _ => false

theorem EdgeItem.edgeId_after (x : XactState) (e : EdgeItem) (op : HistoryOp) : (e.after x op).edgeId = e.edgeId := by
  simp only [EdgeItem.after]
  split
  · split <;> rfl
  · split
    · next h => exact EdgeItem.edgeId_setProps h.2
    · rfl
  · rfl

/-- `delete_edge`, edge by edge. -/
theorem edgeItems_deleteEdge (x : XactState) (xid : Xid) {s : Store} (h : DistinctEdgeIds s.edges) (edgeId : Int64) :
    edgeItems (deleteEdge xid s edgeId).1.edges =
      (edgeItems s.edges).map (fun e => e.after x (.call (.deleteEdge xid edgeId))) := by
  rcases deleteEdge_cases xid s edgeId with ⟨hr, hnone⟩ | ⟨e, he, hid, hu, hr⟩
  · rw [hr]
    refine (List.map_id _).symm.trans (List.map_congr_left fun d hd => ?_)
    have hne : ¬(d.edgeId = edgeId ∧ d.undeleted = true) := fun ⟨h1, h2⟩ => by rw [hnone d hd h1] at h2; cases h2
    simp only [EdgeItem.after, hne, if_false]
    rfl
  · rw [hr]
    dsimp only
    rw [edgeItems_setXmaxAt he]
    refine List.map_congr_left fun d hd => ?_
    by_cases hl : d.loc = e.loc
    · rw [eq_of_mem_edgeItems hd he hl]
      simp only [EdgeItem.after, hid, hu, and_self, if_true]
    · have hne : ¬(d.edgeId = edgeId ∧ d.undeleted = true) :=
        fun ⟨h1, _⟩ => hl (congrArg EdgeItem.loc (h.inj hd he (h1.trans hid.symm)))
      simp only [EdgeItem.after, hl, hne, if_false]

/-- `update_edge_props`, edge by edge. -/
theorem edgeItems_updateEdgeProps (x : XactState) (xid : Xid) {s : Store} (h : DistinctEdgeIds s.edges) (edgeId : Int64)
    (newPropBytes : Bytes) :
    edgeItems (updateEdgeProps (x.backend xid) s edgeId newPropBytes).1.edges =
      (edgeItems s.edges).map (fun e => e.after x (.updateEdgeProps xid edgeId newPropBytes)) := by
  -- nothing happens when no edge with the id accepts the update
  have hnothing : (∀ d ∈ edgeItems s.edges, d.edgeId = edgeId → d.accepts (x.backend xid) newPropBytes = false) →
      edgeItems s.edges = (edgeItems s.edges).map (fun e => e.after x (.updateEdgeProps xid edgeId newPropBytes)) := by
    intro hno
    refine (List.map_id _).symm.trans (List.map_congr_left fun d hd => ?_)
    have hne : ¬(d.edgeId = edgeId ∧ d.accepts (x.backend xid) newPropBytes = true) :=
      fun ⟨h1, h2⟩ => by rw [hno d hd h1] at h2; cases h2
    simp only [EdgeItem.after, hne, if_false]
    rfl
  by_cases hb : propInlineMax < newPropBytes.length
  · simp only [updateEdgeProps, hb, if_true]
    refine hnothing fun d _ _ => ?_
    simp [EdgeItem.accepts, hb]
  by_cases hex : ∃ e ∈ edgeItems s.edges, e.edgeId = edgeId
  swap
  · have hf : findVisibleEdge (x.backend xid) s.edges edgeId = none := by
      rw [findVisibleEdge, findEdgeById_eq_none fun e he hid => hex ⟨e, he, hid⟩]
      rfl
    simp only [updateEdgeProps, hb, if_false, hf]
    exact hnothing fun d hd hid => absurd ⟨d, hd, hid⟩ hex
  obtain ⟨e, he, hid⟩ := hex
  cases hr : e.read (x.backend xid) with
  | none =>
    have hf : findVisibleEdge (x.backend xid) s.edges edgeId = none := by
      rw [findVisibleEdge, ← hid, h.findEdgeById he, hr]
      rfl
    simp only [updateEdgeProps, hb, if_false, hf]
    refine hnothing fun d hd hd' => ?_
    rw [h.inj hd he (hd'.trans hid.symm)]
    simp [EdgeItem.accepts, hr]
  | some r =>
    have hloc : (r.blockNum, r.offsetNum) = e.loc := (EdgeItem.record_fields (EdgeItem.read_eq_some.mp hr).2).2.2
    have hf : findVisibleEdge (x.backend xid) s.edges edgeId = some e.loc := by
      rw [findVisibleEdge, ← hid, h.findEdgeById he, hr, Option.map_some, hloc]
    obtain ⟨page, hp, hpe⟩ := edgeAt_eq_some.mp (mem_edgeItems.mp he)
    obtain ⟨hi, -, hlen⟩ := Page.itemId_of_edgeAt hpe
    have hroom : (page.itemId e.loc.2).item.len - hdrSize - edgeFixedDataSize = e.data.length - edgeFixedDataSize := by
      rw [hi, Item.len]
      omega
    simp only [updateEdgeProps, hb, if_false, hf, hp, hroom]
    by_cases ha : e.data.length - edgeFixedDataSize < newPropBytes.length
    · simp only [ha, if_true]
      refine hnothing fun d hd hd' => ?_
      rw [h.inj hd he (hd'.trans hid.symm)]
      simp [EdgeItem.accepts, Nat.not_le.mpr ha]
    · simp only [ha, if_false]
      have hacc : e.accepts (x.backend xid) newPropBytes = true :=
        EdgeItem.accepts_iff.mpr ⟨Nat.not_lt.mp hb, Nat.not_lt.mp ha, by rw [hr]; rfl⟩
      rw [edgeItems_modifyItem he rfl (by
        rw [length_writeEdgeProps (EdgeItem.room_of_accepts hacc)]
        exact Nat.not_lt.mp hlen)]
      refine List.map_congr_left fun d hd => ?_
      by_cases hl : d.loc = e.loc
      · rw [eq_of_mem_edgeItems hd he hl]
        simp only [EdgeItem.after, hid, hacc, and_self, if_true]
        rfl
      · have hne : ¬(d.edgeId = edgeId ∧ d.accepts (x.backend xid) newPropBytes = true) :=
          fun ⟨h1, _⟩ => hl (congrArg EdgeItem.loc (h.inj hd he (h1.trans hid.symm)))
        simp only [EdgeItem.after, hl, hne, if_false]

/-- The step lemma: a step of such a history, edge by edge. -/
theorem HistoryState.edgeItems_step {pg : PgSys} {h h' : HistoryState} {op : HistoryOp} (hop : op.isEdgeWrite = true)
    (hids : DistinctEdgeIds h.store.edges) (ht : h.step pg op = some h') :
    h'.xact = h.xact.after op ∧ edgeItems h'.store.edges = (edgeItems h.store.edges).map (fun e => e.after h.xact op) := by
  cases op with
  | call op =>
    cases op with
    | deleteEdge xid edgeId =>
      simp only [HistoryState.step] at ht
      split at ht
      · obtain ⟨t, hs, rfl⟩ := Option.map_eq_some_iff.mp ht
        rw [GraphOp.step_eq hs]
        exact ⟨rfl, edgeItems_deleteEdge h.xact xid hids edgeId⟩
      · cases ht
    | _ => cases hop
  | updateEdgeProps xid edgeId newPropBytes =>
    simp only [HistoryState.step] at ht
    split at ht
    · cases ht
      exact ⟨rfl, edgeItems_updateEdgeProps h.xact xid hids edgeId newPropBytes⟩
    · cases ht
  | begin =>
    cases ht
    exact ⟨rfl, (List.map_id _).symm⟩
  | commit xid | abort xid =>
    simp only [HistoryState.step] at ht
    split at ht
    · cases ht
      exact ⟨rfl, (List.map_id _).symm⟩
    · cases ht

/-- Whether a step is allowed depends on the transactions only. -/
theorem HistoryState.step_on_other_store {pg : PgSys} {h h' : HistoryState} {op : HistoryOp} (hop : op.isEdgeWrite = true)
    (ht : h.step pg op = some h') (s : Store) : ∃ t, HistoryState.step pg ⟨h.xact, s⟩ op = some ⟨h'.xact, t⟩ := by
  cases op with
  | call op =>
    cases op with
    | deleteEdge xid edgeId =>
      simp only [HistoryState.step] at ht ⊢
      split at ht
      · next hr =>
        obtain ⟨t, -, rfl⟩ := Option.map_eq_some_iff.mp ht
        have hnext : ∃ t, (GraphOp.deleteEdge xid edgeId).step pg s = some t := by
          rcases deleteEdge_cases xid s edgeId with ⟨hc, -⟩ | ⟨e, -, -, -, hc⟩
          · exact ⟨_, GraphOp.step_of_ok (b := false) (by rw [GraphOp.call, hc])⟩
          · exact ⟨_, GraphOp.step_of_ok (b := true) (by rw [GraphOp.call, hc])⟩
        obtain ⟨t, hs⟩ := hnext
        exact ⟨t, by rw [if_pos hr, hs, Option.map_some]⟩
      · cases ht
    | _ => cases hop
  | begin =>
    cases ht
    exact ⟨s, rfl⟩
  | updateEdgeProps | commit | abort =>
    simp only [HistoryState.step] at ht ⊢
    split at ht
    · next hr =>
      cases ht
      exact ⟨_, if_pos hr⟩
    · cases ht

/-! ## A history and one edge -/

/-- An edge after the steps of a history. -/
def EdgeItem.evolve : XactState → EdgeItem → List HistoryOp → EdgeItem
  | _, e, [] => e
  | x, e, op :: ops => EdgeItem.evolve (x.after op) (e.after x op) ops

theorem EdgeItem.edgeId_evolve (x : XactState) (e : EdgeItem) (ops : List HistoryOp) : (e.evolve x ops).edgeId = e.edgeId := by
  induction ops generalizing x e with
  | nil => rfl
  | cons op ops ih => rw [EdgeItem.evolve, ih, EdgeItem.edgeId_after]

/-- The run lemma: a history, edge by edge. -/
theorem HistoryState.edgeItems_run {pg : PgSys} :
    ∀ {ops : List HistoryOp} {h h' : HistoryState}, (∀ op ∈ ops, op.isEdgeWrite = true) → DistinctEdgeIds h.store.edges →
      run (HistoryState.step pg) h ops = some h' → DistinctEdgeIds h'.store.edges ∧
        edgeItems h'.store.edges = (edgeItems h.store.edges).map (fun e => e.evolve h.xact ops)
  | [], _, _, _, hids, hr => by
    cases hr
    exact ⟨hids, (List.map_id _).symm⟩
  | op :: ops, h, h', hops, hids, hr => by
    obtain ⟨u, hu, hur⟩ := run_cons.mp hr
    obtain ⟨hop, hrest⟩ := List.forall_mem_cons.mp hops
    obtain ⟨hx, hitems⟩ := HistoryState.edgeItems_step hop hids hu
    have hids' := hids.map _ hitems (fun e => EdgeItem.edgeId_after h.xact e op)
    obtain ⟨hids'', hitems'⟩ := HistoryState.edgeItems_run hrest hids' hur
    refine ⟨hids'', ?_⟩
    rw [hitems', hitems, List.map_map, hx]
    rfl

/-- The call deletes the edge with the id. -/
def HistoryOp.deletes (edgeId : Int64) : HistoryOp → Bool
  | .call (.deleteEdge _ id) => id == edgeId
  | _ => false

/-- The last update of an edge that takes effect, if the edge is not deleted: who wrote it, and the properties. -/
def EdgeItem.lastProps : XactState → EdgeItem → List HistoryOp → Option (Xid × Bytes)
  | _, _, [] => none
  | x, e, op :: ops =>
    (EdgeItem.lastProps (x.after op) e ops).or
      (match op with
      | .updateEdgeProps xid edgeId newPropBytes =>
        if e.edgeId = edgeId ∧ e.accepts (x.backend xid) newPropBytes = true then some (xid, newPropBytes) else none
      | _ => none)

/-- A record with the properties of an update, if there is one. -/
def EdgeRecord.withProps (r : EdgeRecord) (upd : Option (Xid × Bytes)) : EdgeRecord :=
  match upd with
  | none => r
  | some (_, newPropBytes) => { r with propBytes := newPropBytes }

theorem EdgeItem.lastProps_setProps {be : Backend} {newPropBytes : Bytes} {e : EdgeItem}
    (h : e.accepts be newPropBytes = true) (x : XactState) (ops : List HistoryOp) :
    (e.setProps newPropBytes).lastProps x ops = e.lastProps x ops := by
  induction ops generalizing x with
  | nil => rfl
  | cons op ops ih => simp only [EdgeItem.lastProps, ih, EdgeItem.edgeId_setProps h, EdgeItem.accepts_setProps h]

theorem EdgeItem.read_setXmax_evolve (be : Backend) (xmax : Xid) (e : EdgeItem) (x : XactState) (ops : List HistoryOp) :
    ((e.setXmax xmax).evolve x ops).read be = none := by
  induction ops generalizing x with
  | nil => exact EdgeItem.read_setXmax be e xmax
  | cons op ops ih =>
    have hstay : (e.setXmax xmax).after x op = e.setXmax xmax := by
      simp only [EdgeItem.after]
      split
      · simp
      · simp [EdgeItem.accepts, EdgeItem.read_setXmax]
      · rfl
    rw [EdgeItem.evolve, hstay, ih]

/-- What a reader makes of an edge at the end: nothing if any call deleted it, else the record with the last properties. -/
theorem EdgeItem.read_evolve (be : Backend) (ops : List HistoryOp) :
    ∀ {x : XactState} {e : EdgeItem} {r : EdgeRecord}, e.read be = some r →
      (e.evolve x ops).read be =
        if ops.any (·.deletes e.edgeId) then none else some (r.withProps (e.lastProps x ops)) := by
  induction ops with
  | nil => exact fun h => h
  | cons op ops ih =>
    intro x e r hr
    by_cases hd : op.deletes e.edgeId = true
    · have hu : e.undeleted = true := by
        have hv := (EdgeItem.read_eq_some.mp hr).1
        simp only [edgeVisible] at hv
        split at hv
        · cases hv
        · exact (Bool.and_eq_true_iff.mp hv).2
      obtain ⟨xid, rfl⟩ : ∃ xid, op = .call (.deleteEdge xid e.edgeId) := by
        simp only [HistoryOp.deletes] at hd
        split at hd
        · next xid id => exact ⟨xid, by rw [eq_of_beq hd]⟩
        · cases hd
      simp only [EdgeItem.evolve, EdgeItem.after, hu, and_self, if_true, List.any_cons, hd, Bool.true_or]
      exact EdgeItem.read_setXmax_evolve be xid e _ ops
    have hany : (op :: ops).any (·.deletes e.edgeId) = ops.any (·.deletes e.edgeId) := by
      rw [List.any_cons, Bool.eq_false_iff.mpr hd, Bool.false_or]
    rw [hany, EdgeItem.evolve]
    by_cases hw : ∃ xid newPropBytes, op = .updateEdgeProps xid e.edgeId newPropBytes ∧
        e.accepts (x.backend xid) newPropBytes = true
    · obtain ⟨xid, newPropBytes, rfl, hacc⟩ := hw
      simp only [EdgeItem.after, hacc, and_self, if_true, EdgeItem.lastProps]
      rw [ih (EdgeItem.read_setProps hacc hr), EdgeItem.edgeId_setProps hacc, EdgeItem.lastProps_setProps hacc]
      cases EdgeItem.lastProps (x.after (.updateEdgeProps xid e.edgeId newPropBytes)) e ops <;> rfl
    · have hstay : e.after x op = e := by
        simp only [EdgeItem.after]
        split
        · next xid id =>
          rw [if_neg]
          rintro ⟨rfl, -⟩
          exact hd (beq_self_eq_true _)
        · next xid id newPropBytes =>
          rw [if_neg]
          rintro ⟨rfl, hacc⟩
          exact hw ⟨xid, newPropBytes, rfl, hacc⟩
        · rfl
      have hlast : e.lastProps x (op :: ops) = e.lastProps (x.after op) ops := by
        simp only [EdgeItem.lastProps]
        split
        · next xid id newPropBytes =>
          rw [if_neg, Option.or_none]
          rintro ⟨rfl, hacc⟩
          exact hw ⟨xid, newPropBytes, rfl, hacc⟩
        · exact Option.or_none
      rw [hstay, hlast, ih hr]

/-- An edge a reader does not read does not appear later. -/
theorem EdgeItem.read_evolve_none {be : Backend} (ops : List HistoryOp) :
    ∀ {x : XactState} {e : EdgeItem}, e.read be = none → (e.evolve x ops).read be = none := by
  induction ops with
  | nil => exact fun h => h
  | cons op ops ih =>
    intro x e h
    refine ih ?_
    simp only [EdgeItem.after]
    split
    · split
      · exact EdgeItem.read_setXmax be e _
      · exact h
    · split
      · next hacc =>
        -- the writer reads the record, so it is the header that the reader does not accept
        obtain ⟨r, hr⟩ := Option.isSome_iff_exists.mp (EdgeItem.accepts_iff.mp hacc.2).2.2
        have hv : ¬edgeVisible be e.hdr = true := by
          intro hv
          rw [EdgeItem.read_eq_some.mpr ⟨hv, (EdgeItem.read_eq_some.mp hr).2⟩] at h
          cases h
        simp [EdgeItem.read, EdgeItem.setProps, hv]
      · exact h
    · exact h

end PgEddy
