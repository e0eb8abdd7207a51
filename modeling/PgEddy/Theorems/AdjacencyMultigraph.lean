import PgEddy.Lemmas.EdgeGraph
import PgEddy.Lemmas.NodeReads

/-!
# Adjacency is a multigraph

The two chains of every node, the dedup of the walk in both directions and the scan of the edge relation all show the graph the
store holds.
-/

namespace PgEddy

open Machine Multigraph

/-- The reader sees what a transaction inserted. -/
def Backend.Sees (be : Backend) (xid : Xid) : Prop := 3 ≤ xid ∧ (be.isCurrent xid || be.didCommit xid) = true

instance (be : Backend) (xid : Xid) : Decidable (be.Sees xid) := inferInstanceAs (Decidable (_ ∧ _))

/-- What `adjacency_follow` returns at a node of a store that holds a graph: out-edges and in-edges newest first, and in both
directions every incident edge once. -/
structure AdjacencyShows (s : Store) (g : List StoredEdge) (cache : LocationCache) (n : Int64) (relTypeFilter : Option Int32)
    (fuel : Nat) : Prop where
  outs : ∃ rs, adjacencyFollow cache s.nodes s.edges n .out relTypeFilter fuel = some (.ok rs) ∧
    rs.map EdgeRecord.edge = outEdges g (acceptsType relTypeFilter) n
  ins : ∃ rs, adjacencyFollow cache s.nodes s.edges n .in relTypeFilter fuel = some (.ok rs) ∧
    rs.map EdgeRecord.edge = inEdges g (acceptsType relTypeFilter) n
  both : ∃ rs, adjacencyFollow cache s.nodes s.edges n .both relTypeFilter fuel = some (.ok rs) ∧
    (rs.map EdgeRecord.edge).Perm (incident g (acceptsType relTypeFilter) n)

/-- `scan_all_edges`, filtered in the same way, returns the same records: in physical order, oldest first. -/
structure ScanShows (be : Backend) (s : Store) (cache : LocationCache) (n : Int64) (relTypeFilter : Option Int32)
    (fuel : Nat) : Prop where
  outs : adjacencyFollow cache s.nodes s.edges n .out relTypeFilter fuel = some (.ok
    ((scanAllEdges be s.edges).filter (fun r => r.sourceNodeId = n && passesFilter relTypeFilter r)).reverse)
  ins : adjacencyFollow cache s.nodes s.edges n .in relTypeFilter fuel = some (.ok
    ((scanAllEdges be s.edges).filter (fun r => r.targetNodeId = n && passesFilter relTypeFilter r)).reverse)
  both : ∃ rs, adjacencyFollow cache s.nodes s.edges n .both relTypeFilter fuel = some (.ok rs) ∧
    rs.Perm ((scanAllEdges be s.edges).filter
      (fun r => (r.sourceNodeId = n || r.targetNodeId = n) && passesFilter relTypeFilter r))

theorem passesFilter_edge (relTypeFilter : Option Int32) (r : EdgeRecord) :
    passesFilter relTypeFilter r = acceptsType relTypeFilter r.edge.label := by cases relTypeFilter <;> rfl

variable {nodes : Relation} {inserters : Xid → Prop} {sg : Store × List StoredEdge}

/-- Distinct ids make distinct edges of the graph. -/
theorem HoldsGraph.nodup_ids (h : HoldsGraph nodes inserters sg) : (sg.2.map Edge.id).Nodup := by
  rw [← h.graph, List.map_map]
  exact h.ids.nodup_live

theorem HoldsGraph.map_walk (h : HoldsGraph nodes inserters sg) (isOutChain : Bool) (n : Int64) (relTypeFilter : Option Int32) :
    (walk sg.1.edges isOutChain n relTypeFilter).map EdgeRecord.edge =
      if isOutChain then outEdges sg.2 (acceptsType relTypeFilter) n else inEdges sg.2 (acceptsType relTypeFilter) n := by
  rw [walk_eq, outEdges, inEdges, ← h.graph, List.filter_map, List.filter_map]
  simp only [Function.comp_def, ← passesFilter_edge]
  cases isOutChain <;> rfl

theorem HoldsGraph.adjacency (h : HoldsGraph nodes inserters sg) {n : Int64} {b o a : Nat} (hl : Located nodes n b o a)
    {cache : LocationCache} (hc : CacheInRange cache sg.1.nodes n) (direction : Direction) (relTypeFilter : Option Int32)
    {fuel : Nat} (hf : (edgeItems sg.1.edges).length ≤ fuel) :
    adjacencyFollow cache sg.1.nodes sg.1.edges n direction relTypeFilter fuel =
      some (.ok (followed sg.1.edges n relTypeFilter direction)) := by
  have hl' := (Located.congr h.kept).mpr hl
  obtain ⟨hdr, hh⟩ := h.headers n b o a hl'
  exact h.toLinked.adjacencyFollow hl' hh hc direction relTypeFilter hf

theorem HoldsGraph.shows (h : HoldsGraph nodes inserters sg) {n : Int64} {b o a : Nat} (hl : Located nodes n b o a)
    {cache : LocationCache} (hc : CacheInRange cache sg.1.nodes n) (relTypeFilter : Option Int32) {fuel : Nat}
    (hf : (edgeItems sg.1.edges).length ≤ fuel) : AdjacencyShows sg.1 sg.2 cache n relTypeFilter fuel where
  outs := ⟨_, h.adjacency hl hc .out relTypeFilter hf, h.map_walk true n relTypeFilter⟩
  ins := ⟨_, h.adjacency hl hc .in relTypeFilter hf, h.map_walk false n relTypeFilter⟩
  both := by
    refine ⟨_, h.adjacency hl hc .both relTypeFilter hf, perm_incident h.nodup_ids.of_map ?_ fun e => ?_⟩
    · have hids := nodup_retainFirst (walk sg.1.edges true n relTypeFilter ++ walk sg.1.edges false n relTypeFilter) []
      refine List.Nodup.of_map Edge.id ?_
      rw [List.map_map]
      exact hids
    · have hout := h.map_walk true n relTypeFilter
      have hin := h.map_walk false n relTypeFilter
      simp only [if_true, Bool.false_eq_true, if_false] at hout hin
      rw [← hout, ← hin]
      simp only [List.mem_map, mem_followed_both h.ids]
      constructor
      · rintro ⟨r, hr | hr, rfl⟩
        · exact Or.inl ⟨r, hr, rfl⟩
        · exact Or.inr ⟨r, hr, rfl⟩
      · rintro (⟨r, hr, rfl⟩ | ⟨r, hr, rfl⟩)
        · exact ⟨r, Or.inl hr, rfl⟩
        · exact ⟨r, Or.inr hr, rfl⟩

/-- A reader who sees the inserters scans what the walks take. -/
theorem HoldsGraph.scan (h : HoldsGraph nodes inserters sg) {be : Backend} (hbe : ∀ xid, inserters xid → be.Sees xid) :
    scanAllEdges be sg.1.edges = (liveRecords sg.1.edges).reverse := by
  refine scanAllEdges_eq_liveRecords fun e he => ?_
  obtain ⟨h1, h2, h3⟩ := h.inserted e he
  obtain ⟨h4, h5⟩ := hbe _ h3
  have h0 : ¬e.hdr.xmin = invalidTransactionId := Nat.ne_of_gt (Nat.lt_of_lt_of_le (by decide) h4)
  simp [edgeVisible, h0, h1, h2, h5, EdgeItem.undeleted]

theorem HoldsGraph.scanShows (h : HoldsGraph nodes inserters sg) {be : Backend} (hbe : ∀ xid, inserters xid → be.Sees xid) {n : Int64}
    {b o a : Nat} (hl : Located nodes n b o a) {cache : LocationCache} (hc : CacheInRange cache sg.1.nodes n)
    (relTypeFilter : Option Int32) {fuel : Nat} (hf : (edgeItems sg.1.edges).length ≤ fuel) :
    ScanShows be sg.1 cache n relTypeFilter fuel where
  outs := by
    rw [h.adjacency hl hc .out relTypeFilter hf, h.scan hbe, List.filter_reverse, List.reverse_reverse, followed, walk_eq]
    rfl
  ins := by
    rw [h.adjacency hl hc .in relTypeFilter hf, h.scan hbe, List.filter_reverse, List.reverse_reverse, followed, walk_eq]
    rfl
  both := by
    refine ⟨_, h.adjacency hl hc .both relTypeFilter hf, ?_⟩
    rw [h.scan hbe, List.filter_reverse]
    refine List.Perm.trans ?_ (List.reverse_perm _).symm
    have hlive := h.ids.nodup_live.of_map
    refine (List.perm_ext_iff_of_nodup (List.Nodup.of_map _ (nodup_retainFirst _ _)) (hlive.filter _)).mpr fun r => ?_
    refine (mem_followed_both h.ids).trans ?_
    rw [walk_eq, walk_eq]
    simp only [List.mem_filter, EdgeRecord.endpoint, if_true, Bool.false_eq_true, if_false, Bool.and_eq_true, Bool.or_eq_true,
      decide_eq_true_eq]
    tauto

/-- On every set of nodes with distinct slots below the limit and after every sequence of edge inserts and deletes, none of
which leaves a page: the walks end, show the undeleted edges, and agree with the scan of any reader who sees the inserters. -/
theorem adjacency_shows_multigraph (pg : PgSys) {s : Store} (hs : FreshNodes s) {ops : List GraphOp}
    (hops : ∀ op ∈ ops, op.isEdgeCall = true)
    (hfresh : EveryCall (graphStep pg) (fun sg op => op.Fresh sg.1) (s, []) ops) :
    ∃ t g, run (graphStep pg) (s, []) ops = some (t, g) ∧ (g.map Edge.id).Nodup ∧
      ∀ n b o a, Located s.nodes n b o a → ∀ cache, CacheInRange cache t.nodes n →
        ∀ relTypeFilter fuel, (edgeItems t.edges).length ≤ fuel →
          AdjacencyShows t g cache n relTypeFilter fuel ∧
          ∀ be : Backend, (∀ op ∈ ops, be.Sees op.xid) → ScanShows be t cache n relTypeFilter fuel := by
  have hrun := run_total (I := HoldsGraph s.nodes (fun xid => ∃ op ∈ ops, op.xid = xid))
    (D := fun op => op.isEdgeCall = true ∧ op ∈ ops) (fun _ _ h hop => h.next pg hop.1)
    (fun _ op _ h hop hf ht => h.step hop.1 ⟨op, hop.2, rfl⟩ hf ht) (holdsGraph_start hs _)
    (fun op hop => ⟨hops op hop, hop⟩) hfresh
  obtain ⟨⟨t, g⟩, hr, h⟩ := hrun
  refine ⟨t, g, hr, h.nodup_ids, fun n b o a hl cache hc relTypeFilter fuel hf => ⟨h.shows hl hc relTypeFilter hf, ?_⟩⟩
  intro be hbe
  exact h.scanShows (fun _ ⟨op, hop, hx⟩ => hx ▸ hbe op hop) hl hc relTypeFilter hf

/-- Parallel edges, a self-loop, an edge back, and a deletion. -/
def edgeRun : List GraphOp :=
  [.insertEdge 3 .empty 1 5 1 2 [9], .insertEdge 3 .empty 2 5 1 2 [], .insertEdge 3 .empty 3 6 1 1 [],
    .insertEdge 4 .empty 4 5 2 1 [], .deleteEdge 4 2]

theorem adjacency_shows_multigraph_two_nodes :
    ∃ t g, run (graphStep postgres) (twoNodes, []) edgeRun = some (t, g) ∧ (g.map Edge.id).Nodup ∧
      ∀ n b o a, Located twoNodes.nodes n b o a → ∀ cache, CacheInRange cache t.nodes n →
        ∀ relTypeFilter fuel, (edgeItems t.edges).length ≤ fuel →
          AdjacencyShows t g cache n relTypeFilter fuel ∧
          ∀ be : Backend, (∀ op ∈ edgeRun, be.Sees op.xid) → ScanShows be t cache n relTypeFilter fuel :=
  adjacency_shows_multigraph postgres freshNodes_twoNodes (by decide) (by decide +kernel)

end PgEddy
