import PgEddy.Lemmas.LiveEdges

/-!
# The graph a store holds

A caller that inserts and deletes edges has a directed multigraph in mind. Over a set of nodes with slots of their own the store
holds this graph: every call of the edge store does to the undeleted edges what it does to the graph.
-/

namespace PgEddy

open Machine Multigraph

/-- An edge as a caller sees it. -/
abbrev StoredEdge : Type := Edge Int64 Int64 Int32 Bytes

/-- The edge of a record. -/
def EdgeRecord.edge (r : EdgeRecord) : StoredEdge := ⟨r.edgeId, r.relTypeId, r.sourceNodeId, r.targetNodeId, r.propBytes⟩

/-- `passes_filter` on types. -/
def acceptsType (relTypeFilter : Option Int32) (relTypeId : Int32) : Bool := relTypeFilter.all (fun t => t == relTypeId)

/-- The graph after a call that returned `r`. -/
def GraphOp.after (g : List StoredEdge) : GraphOp → Except PgError Bool → List StoredEdge
  | .insertEdge _ _ edgeId relTypeId src tgt propBytes, .ok _ => ⟨edgeId, relTypeId, src, tgt, propBytes⟩ :: g
  | .deleteEdge _ edgeId, .ok true => unlink g edgeId
  | _, _ => g

/-- The call changes edges only. -/
def GraphOp.isEdgeCall : GraphOp → Bool
  | .insertEdge .. | .deleteEdge .. => true
  | _ => false

/-- The store with the graph its caller has in mind. -/
def graphStep (pg : PgSys) (sg : Store × List StoredEdge) (op : GraphOp) : Option (Store × List StoredEdge) :=
  (op.step pg sg.1).map (fun t => (t, op.after sg.2 (op.call pg sg.1).2))

/-- A set of nodes without edges: pairwise distinct ids and, page by page, pairwise distinct adjacency slots in the special
area, with empty chains. -/
structure FreshNodes (s : Store) : Prop where
  pages : NodePages s.nodes
  ids : ∀ x ∈ versions s.nodes, ∀ y ∈ versions s.nodes, x.2.unmarked → y.2.unmarked → x.2.nodeId = y.2.nodeId → x = y
  slots : ∀ x ∈ versions s.nodes, ∀ y ∈ versions s.nodes, x.2.unmarked → y.2.unmarked →
    (x.1.1, x.2.slot) = (y.1.1, y.2.slot) → x = y
  below : ∀ x ∈ versions s.nodes, x.2.unmarked → x.2.slot < maxNodeSlotsPerPage
  heads : ∀ x ∈ versions s.nodes, x.2.unmarked → ∀ hdr ∈ headerAt s.nodes (x.1.1, x.2.slot),
    hdr.outHeadSl = 0 ∧ hdr.inHeadSl = 0
  edges : s.edges = []

/-- Two nodes on one page. -/
def twoNodes : Store :=
  (run (GraphOp.step postgres) Store.empty [.insertNode 3 1 [] [], .insertNode 3 2 [7] []]).getD Store.empty

/-- Transaction 3, which wrote the nodes, has committed. -/
def afterNodes : XactState := XactState.init.begin.finish 3 .committed

theorem freshNodes_twoNodes : FreshNodes twoNodes where
  pages := by
    have hrun : run (GraphOp.step postgres) Store.empty [.insertNode 3 1 [] [], .insertNode 3 2 [7] []] = some twoNodes := by
      decide +kernel
    have hsound : Sound twoNodes := run_invariant (C := GraphOp.Fresh) (fun _ _ _ h hf ht => h.step hf ht) sound_empty
      (by decide +kernel) hrun
    exact hsound.nodePages
  ids := by decide +kernel
  slots := by decide +kernel
  below := by decide +kernel
  heads := by decide +kernel
  edges := by decide +kernel

/-- The store holds the graph: its chains are linked, every node has a header, and the undeleted edges are those of the graph.
`nodes` is the node relation at the start, `inserters` are the transactions that wrote edges. -/
structure HoldsGraph (nodes : Relation) (inserters : Xid → Prop) (sg : Store × List StoredEdge) : Prop extends Linked sg.1 where
  kept : ∀ loc, versionAt sg.1.nodes loc = versionAt nodes loc
  headers : ∀ n b o a, Located sg.1.nodes n b o a → ∃ hdr, headerAt sg.1.nodes (b, a) = some hdr
  endpoints : ∀ e ∈ edgeItems sg.1.edges, ∀ isOutChain, ∃ b o a, Located nodes (e.endpoint isOutChain) b o a
  ids : DistinctEdgeIds sg.1.edges
  graph : (liveRecords sg.1.edges).map EdgeRecord.edge = sg.2
  decodes : ∀ e ∈ edgeItems sg.1.edges, e.record.isSome
  inserted : ∀ e ∈ edgeItems sg.1.edges, e.hdr.xminCommitted = false ∧ e.hdr.xminInvalid = false ∧ inserters e.hdr.xmin

theorem holdsGraph_start {s : Store} (h : FreshNodes s) (inserters : Xid → Prop) : HoldsGraph s.nodes inserters (s, []) := by
  have hitems : edgeItems s.edges = [] := by rw [h.edges]; rfl
  have hmem : ∀ {loc v}, versionAt s.nodes loc = some v → (loc, v) ∈ versions s.nodes := fun hv => (mem_versions h.pages).mpr hv
  have hunique : UniqueUnmarked s.nodes := fun loc loc' v v' hv hv' hu hu' hid =>
    congrArg Prod.fst (h.ids _ (hmem hv) _ (hmem hv') hu hu' hid)
  refine { nodePages := h.pages, edgePages := ?_, unique := hunique, slots := ?_, threads := ?_, kept := fun _ => rfl,
           headers := ?_, endpoints := ?_, ids := ?_, graph := ?_, decodes := ?_, inserted := ?_ }
  · exact ⟨by rw [h.edges]; simp, by rw [h.edges]; simp⟩
  · rintro n n' b o o' a ⟨v, hv, hu, hid, hs⟩ ⟨v', hv', hu', hid', hs'⟩
    have := h.slots _ (hmem hv) _ (hmem hv') hu hu' (by rw [hs, hs'])
    rw [← hid, ← hid', (Prod.mk.inj this).2]
  · rintro n b o a hdr ⟨v, hv, hu, -, hs⟩ hh isOutChain
    obtain ⟨h1, h2⟩ := h.heads _ (hmem hv) hu hdr (by rw [hs]; exact hh)
    have hlink : link (hdr.head isOutChain) = none := by cases isOutChain <;> simp [NodeAdjHeader.head, link, h1, h2]
    rw [hlink, thread, hitems]
    exact LinkedChain.chain_none_iff.mpr rfl
  · rintro n b o a ⟨v, hv, hu, -, rfl⟩
    obtain ⟨p, hp, hpv⟩ := versionAt_eq_some.mp hv
    have hspecial := (h.pages.isNodePage_of_versionAt hp hpv).headers
    have hlt := h.below _ (hmem hv) hu
    dsimp only at hlt
    simp only [headerAt, hp, Option.bind_some, readAdjHeader]
    exact ⟨_, List.getElem?_eq_getElem (hspecial ▸ hlt)⟩
  · simp [hitems]
  · simp [DistinctEdgeIds, hitems]
  · simp [liveRecords, hitems]
  · simp [hitems]
  · simp [hitems]

/-- What a call of the edge store does and returns. -/
inductive EdgeCall (s : Store) : GraphOp → Outcome Bool → Prop where
  | unchanged {op : GraphOp} {r : Except PgError Bool} : r ≠ .error .outOfPage → (∀ g, op.after g r = g) → EdgeCall s op (s, r)
  | linked {xid : Xid} {cache : LocationCache} {edgeId : Int64} {relTypeId : Int32} {src tgt : Int64} {propBytes : Bytes}
      {sb sOff sa tb tOff ta : Nat} {srcAdj tgtAdj : NodeAdjHeader} {loc : Nat × Nat} {t : Store} :
      propBytes.length ≤ propInlineMax → Located s.nodes src sb sOff sa → Located s.nodes tgt tb tOff ta →
      headerAt s.nodes (sb, sa) = some srcAdj → headerAt s.nodes (tb, ta) = some tgtAdj →
      t.nodes = pushHeads s.nodes sb sa tb ta srcAdj tgtAdj loc →
      edgeItems t.edges = edgeItems s.edges ++ [newEdge xid edgeId relTypeId src tgt srcAdj tgtAdj propBytes loc] →
      EdgeCall s (.insertEdge xid cache edgeId relTypeId src tgt propBytes) (t, .ok true)
  | marked {xid : Xid} {edgeId : Int64} {e : EdgeItem} {t : Store} :
      e ∈ edgeItems s.edges → e.edgeId = edgeId → t.nodes = s.nodes →
      t.edges = setXmaxAt s.edges e.loc.1 e.loc.2 xid → EdgeCall s (.deleteEdge xid edgeId) (t, .ok true)

theorem edgeCall (pg : PgSys) {s : Store} (hw : WellFormed s)
    (hh : ∀ n b o a, Located s.nodes n b o a → ∃ hdr, headerAt s.nodes (b, a) = some hdr) {op : GraphOp}
    (hop : op.isEdgeCall = true) : EdgeCall s op (op.call pg s) := by
  cases op with
  | insertEdge xid cache edgeId relTypeId src tgt propBytes =>
    rcases insertEdge_cases pg xid cache edgeId relTypeId src tgt propBytes hw.nodePages with
      ⟨e, he, hout⟩ | ⟨sb, sOff, sa, tb, tOff, ta, srcAdj, tgtAdj, hb, hs, ht, hhs, hht, he⟩
    · simp only [GraphOp.call, he]
      refine .unchanged (fun hr => ?_) fun _ => rfl
      obtain ⟨n, b, o, a, hl, hnone⟩ := hout (Except.error.inj hr)
      obtain ⟨hdr, hsome⟩ := hh n b o a hl
      rw [hnone] at hsome
      cases hsome
    · simp only [GraphOp.call, he]
      have hr := linkEdge_result pg xid edgeId relTypeId src tgt sb sa tb ta srcAdj tgtAdj hw.edgePages hb
      generalize linkEdge pg xid s edgeId relTypeId src tgt propBytes sb sa tb ta srcAdj tgtAdj = out at hr ⊢
      cases hr with
      | failed hne => exact .unchanged (fun hr => hne (Except.error.inj hr)) fun _ => rfl
      | linked _ hnodes _ hitems => exact .linked hb hs ht hhs hht hnodes hitems
  | deleteEdge xid edgeId =>
    rcases deleteEdge_cases xid s edgeId with ⟨hr, -⟩ | ⟨e, he, hid, -, hr⟩
    · simp only [GraphOp.call, hr]
      exact .unchanged (by simp) fun _ => rfl
    · simp only [GraphOp.call, hr]
      exact .marked he hid rfl rfl
  | _ => cases hop

/-- A call of the edge store has a next state. -/
theorem HoldsGraph.next {nodes : Relation} {inserters : Xid → Prop} {sg : Store × List StoredEdge} (h : HoldsGraph nodes inserters sg) (pg : PgSys) {op : GraphOp}
    (hop : op.isEdgeCall = true) : ∃ tg, graphStep pg sg op = some tg := by
  have hc := edgeCall pg h.toWellFormed h.headers hop
  simp only [graphStep, GraphOp.step]
  generalize op.call pg sg.1 = out at hc
  cases hc with
  | unchanged hne _ =>
    split
    · next heq => exact absurd (congrArg Prod.snd heq) hne
    · exact ⟨_, rfl⟩
  | linked => exact ⟨_, rfl⟩
  | marked => exact ⟨_, rfl⟩

/-- The step lemma: what a call does to the store is what it does to the graph. -/
theorem HoldsGraph.step {nodes : Relation} {inserters : Xid → Prop} {sg tg : Store × List StoredEdge} (h : HoldsGraph nodes inserters sg) {pg : PgSys}
    {op : GraphOp} (hop : op.isEdgeCall = true) (hin : inserters op.xid) (hf : op.Fresh sg.1)
    (ht : graphStep pg sg op = some tg) : HoldsGraph nodes inserters tg := by
  obtain ⟨t, hst, rfl⟩ := Option.map_eq_some_iff.mp ht
  have hsound := h.toSound.step hf hst
  have hc := edgeCall pg h.toWellFormed h.headers hop
  rw [GraphOp.step_eq hst] at hsound ⊢
  generalize op.call pg sg.1 = out at hc hsound ⊢
  cases hc with
  | unchanged _ hg => exact { h with graph := by rw [hg]; exact h.graph }
  | @linked xid cache edgeId relTypeId src tgt propBytes sb sOff sa tb tOff ta srcAdj tgtAdj loc t hb hsl htl hhs hht hnodes
      hitems =>
    have hlink := h.toLinked.linked hsound hsl htl hhs hht hnodes hitems
    have hr := decodeEdgeRecord_edgeData edgeId relTypeId src tgt srcAdj.outHeadPg srcAdj.outHeadSl tgtAdj.inHeadPg
      tgtAdj.inHeadSl propBytes loc.1 loc.2 hb
    refine { hlink with kept := fun l => ?_, headers := fun n b o a hl => ?_, endpoints := fun e he => ?_, ids := ?_,
                        graph := ?_, decodes := fun e he => ?_, inserted := fun e he => ?_ }
    · dsimp only
      rw [hnodes, versionAt_pushHeads]
      exact h.kept l
    · dsimp only at hl hnodes ⊢
      rw [hnodes] at hl ⊢
      rw [headerAt_pushHeads hhs hht]
      split
      · exact ⟨_, rfl⟩
      · split
        · exact ⟨_, rfl⟩
        · exact h.headers n b o a ((Located.congr fun l => versionAt_pushHeads ..).mp hl)
    · dsimp only at he
      rw [hitems] at he
      rcases List.mem_append.mp he with he | he
      · exact h.endpoints e he
      · cases List.mem_singleton.mp he
        rintro (_ | _)
        · exact ⟨tb, tOff, ta, by simpa [EdgeItem.endpoint] using (Located.congr h.kept).mp htl⟩
        · exact ⟨sb, sOff, sa, by simpa [EdgeItem.endpoint] using (Located.congr h.kept).mp hsl⟩
    · refine h.ids.append hitems fun d hd => ?_
      rw [edgeId_newEdge]
      exact hf d hd
    · dsimp only
      rw [liveRecords_append hitems (undeleted_newEdge ..) hr, List.map_cons, h.graph]
      rfl
    · dsimp only at he
      rw [hitems] at he
      rcases List.mem_append.mp he with he | he
      · exact h.decodes e he
      · cases List.mem_singleton.mp he
        rw [EdgeItem.record, newEdge, hr]
        rfl
    · dsimp only at he
      rw [hitems] at he
      rcases List.mem_append.mp he with he | he
      · exact h.inserted e he
      · cases List.mem_singleton.mp he
        exact ⟨rfl, rfl, hin⟩
  | @marked xid edgeId e t he hid hnodes hedges =>
    have hlink := h.toLinked.edgeMarked hsound he hnodes hedges
    have hitems := hedges ▸ edgeItems_setXmaxAt he xid
    refine { hlink with kept := ?_, headers := ?_, endpoints := fun d hd isOutChain => ?_, ids := ?_, graph := ?_,
                        decodes := fun d hd => ?_, inserted := fun d hd => ?_ }
    · dsimp only
      rw [hnodes]
      exact h.kept
    · dsimp only
      rw [hnodes]
      exact h.headers
    · dsimp only at hd
      rw [hitems] at hd
      obtain ⟨d', hd', rfl⟩ := List.mem_map.mp hd
      rw [(edgeMark_map d').2.1]
      exact h.endpoints d' hd' isOutChain
    · refine h.ids.map _ hitems fun d => ?_
      split <;> rfl
    · dsimp only
      rw [hedges, liveRecords_setXmaxAt h.ids he, GraphOp.after, unlink, ← h.graph, List.filter_map, hid]
      rfl
    · dsimp only at hd
      rw [hitems] at hd
      obtain ⟨d', hd', rfl⟩ := List.mem_map.mp hd
      have := h.decodes d' hd'
      split
      · exact this
      · exact this
    · dsimp only at hd
      rw [hitems] at hd
      obtain ⟨d', hd', rfl⟩ := List.mem_map.mp hd
      have := h.inserted d' hd'
      split
      · exact this
      · exact this

end PgEddy
