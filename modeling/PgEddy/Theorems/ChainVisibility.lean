import PgEddy.Lemmas.EdgeGraph
import PgEddy.Lemmas.Histories

/-!
# Chain walks and visibility

The page scan asks for the inserter of an edge, the walk along a chain does not. The two agree exactly as long as no undeleted
edge has an inserter the reader does not see.
-/

namespace PgEddy

open Machine

/-- The step begins or ends a transaction, or changes edges only. -/
def HistoryOp.isEdgeStep : HistoryOp → Bool
  | .begin | .commit _ | .abort _ => true
  | .call op => op.isEdgeCall
  | .updateEdgeProps .. => false

/-- Every edge that `adjacency_follow` returns, with rounds enough for all edges, is returned by `find_edge_by_id`. -/
def FollowedAreFound (be : Backend) (s : Store) : Prop :=
  ∀ cache n direction relTypeFilter fuel rs, (edgeItems s.edges).length ≤ fuel →
    adjacencyFollow cache s.nodes s.edges n direction relTypeFilter fuel = some (.ok rs) →
      ∀ r ∈ rs, findEdgeById be s.edges r.edgeId = some r

/-- Every edge without a deleter was inserted by the reader or by a transaction that has committed. -/
def InsertersSeen (h : HistoryState) (me : Xid) : Prop :=
  ∀ e ∈ edgeItems h.store.edges, e.undeleted = true → h.xact.seenBy me e.hdr.xmin = true

namespace ChainVisibilityAux

/-- The store of a history holds some graph, inserted by normal transactions. -/
def Holds (nodes : Relation) (h : HistoryState) : Prop := ∃ g, HoldsGraph nodes (fun xid => 3 ≤ xid) (h.store, g)

theorem Holds.step {nodes : Relation} {pg : PgSys} {h h' : HistoryState} {op : HistoryOp} (hh : Holds nodes h)
    (hop : op.isEdgeStep = true) (hf : op.Fresh h) (ht : h.step pg op = some h') : Holds nodes h' := by
  obtain ⟨g, hg⟩ := hh
  cases op with
  | call op =>
    simp only [HistoryState.step] at ht
    split at ht
    · next hr =>
      obtain ⟨t, hs, rfl⟩ := Option.map_eq_some_iff.mp ht
      have htg : graphStep pg (h.store, g) op = some (t, op.after g (op.call pg h.store).2) := by
        rw [graphStep, hs, Option.map_some]
      exact ⟨_, hg.step hop (XactState.running_iff.mp hr).1 hf htg⟩
    · cases ht
  | updateEdgeProps => cases hop
  | begin | commit | abort =>
    have hstore : h'.store = h.store := by
      simp only [HistoryState.step] at ht
      first
        | cases ht; rfl
        | split at ht <;> cases ht; rfl
    exact ⟨g, hstore ▸ hg⟩

/-- The run lemma: from nodes without edges every history of edge calls leads to a store that holds a graph. -/
theorem Holds.of_run {pg : PgSys} {s : Store} (hs : FreshNodes s) {x : XactState} {ops : List HistoryOp}
    (hops : ∀ op ∈ ops, op.isEdgeStep = true) (hfresh : EveryCall (HistoryState.step pg) HistoryOp.Fresh ⟨x, s⟩ ops)
    {h : HistoryState} (hrun : run (HistoryState.step pg) ⟨x, s⟩ ops = some h) : Holds s.nodes h :=
  run_invariant (I := Holds s.nodes) (C := fun h op => op.isEdgeStep = true ∧ op.Fresh h)
    (fun _ _ _ hi hc ht => hi.step hc.1 hc.2 ht) ⟨[], holdsGraph_start hs _⟩ ((EveryCall.of_forall hops).and hfresh) hrun

/-- What the page scan makes of an edge. -/
theorem edgeVisible_eq {x : XactState} {me : Xid} {hdr : HeapTupleHeader} (hc : hdr.xminCommitted = false)
    (hi : hdr.xminInvalid = false) (h3 : 3 ≤ hdr.xmin) :
    edgeVisible (x.backend me) hdr = (x.seenBy me hdr.xmin && hdr.xmaxInvalid) := by
  have h0 : ¬hdr.xmin = invalidTransactionId := Nat.ne_of_gt (Nat.lt_of_lt_of_le (by decide) h3)
  simp only [edgeVisible, h0, hc, hi, Bool.false_eq_true, if_false, XactState.seenBy]

/-- What `adjacency_follow` can return. -/
theorem adjacency_cases {nodes : Relation} {inserters : Xid → Prop} {s : Store} {g : List StoredEdge}
    (h : HoldsGraph nodes inserters (s, g)) (cache : LocationCache) (n : Int64) (direction : Direction)
    (relTypeFilter : Option Int32) {fuel : Nat} (hf : (edgeItems s.edges).length ≤ fuel) {rs : List EdgeRecord}
    (hrs : adjacencyFollow cache s.nodes s.edges n direction relTypeFilter fuel = some (.ok rs)) :
    rs = [] ∨ rs = followed s.edges n relTypeFilter direction := by
  have hn : NodePages s.nodes := h.nodePages
  cases hfind : findNodeLocation cache s.nodes n with
  | error e =>
    rw [adjacencyFollow_eq hn, hfind] at hrs
    cases hrs
  | ok l =>
    cases l with
    | none =>
      rw [adjacencyFollow_eq hn, hfind] at hrs
      cases hrs
      exact Or.inl rfl
    | some l =>
      obtain ⟨b, o, a⟩ := l
      have hl : Located s.nodes n b o a := located_of_findNodeLocation hn hfind
      obtain ⟨hdr, hh⟩ := h.headers n b o a hl
      rw [adjacencyFollow_eq hn, hfind] at hrs
      simp only [hh] at hrs
      rw [(h.threads n b o a hdr hl hh).followHeader direction relTypeFilter hf] at hrs
      cases hrs
      exact Or.inr rfl

theorem mem_live_of_followed {edges : Relation} {n : Int64} {relTypeFilter : Option Int32} {direction : Direction}
    {r : EdgeRecord} (h : r ∈ followed edges n relTypeFilter direction) : r ∈ liveRecords edges := by
  have hwalk : ∀ isOutChain, r ∈ walk edges isOutChain n relTypeFilter → r ∈ liveRecords edges := by
    intro isOutChain hr
    rw [walk_eq, List.mem_filter] at hr
    exact hr.1
  cases direction with
  | out => exact hwalk true h
  | «in» => exact hwalk false h
  | both => exact (List.mem_append.mp (mem_of_mem_retainFirst h).1).elim (hwalk true) (hwalk false)

/-- At a store that holds a graph the walks and the search agree exactly if all inserters are seen. -/
theorem followedAreFound_iff {nodes : Relation} {h : HistoryState} (hh : Holds nodes h) (me : Xid) :
    FollowedAreFound (h.xact.backend me) h.store ↔ InsertersSeen h me := by
  obtain ⟨g, hg⟩ := hh
  have hvisible : ∀ e ∈ edgeItems h.store.edges,
      edgeVisible (h.xact.backend me) e.hdr = (h.xact.seenBy me e.hdr.xmin && e.undeleted) := by
    intro e he
    obtain ⟨h1, h2, h3⟩ := hg.inserted e he
    exact edgeVisible_eq h1 h2 h3
  constructor
  · intro hfound e he hu
    -- the edge is the head of some walk: it hangs in the out-chain of its source
    obtain ⟨r, hr⟩ := Option.isSome_iff_exists.mp (hg.decodes e he)
    obtain ⟨b, o, a, hl⟩ := hg.endpoints e he true
    have hl' := (Located.congr hg.kept).mpr hl
    obtain ⟨hdr, hhdr⟩ := hg.headers _ b o a hl'
    have hmem : r ∈ walk h.store.edges true (e.endpoint true) none := by
      rw [walk_eq, List.mem_filter]
      refine ⟨mem_liveRecords.mpr ⟨e, he, hu, hr⟩, ?_⟩
      simp [(EdgeItem.record_fields hr).2.1, passesFilter]
    have hfollow : adjacencyFollow LocationCache.empty h.store.nodes h.store.edges (e.endpoint true) .out none
        (edgeItems h.store.edges).length = some (.ok (walk h.store.edges true (e.endpoint true) none)) :=
      hg.toLinked.adjacencyFollow hl' hhdr (by simp [LocationCache.empty]) .out none (Nat.le_refl _)
    have hread := hfound _ _ _ _ _ _ (Nat.le_refl _) hfollow r hmem
    rw [(EdgeItem.record_fields hr).1, hg.ids.findEdgeById he, EdgeItem.read_eq_some, hvisible e he, Bool.and_eq_true] at hread
    exact hread.1.1
  · intro hseen cache n direction relTypeFilter fuel rs hf hrs r hr
    have hlive : r ∈ liveRecords h.store.edges := by
      rcases adjacency_cases hg cache n direction relTypeFilter hf hrs with rfl | rfl
      · cases hr
      · exact mem_live_of_followed hr
    obtain ⟨e, he, hu, hrec⟩ := mem_liveRecords.mp hlive
    rw [(EdgeItem.record_fields hrec).1, hg.ids.findEdgeById he, EdgeItem.read_eq_some, hvisible e he, hseen e he hu, hu]
    exact ⟨rfl, hrec⟩

end ChainVisibilityAux

/-- After every history of edge inserts and deletes over a set of nodes, and for every reader: the edges the walks return are
returned by the search by id exactly if the inserter of every undeleted edge is the reader or has committed. -/
theorem followed_are_found_iff (pg : PgSys) {s : Store} (hs : FreshNodes s) (x : XactState) {ops : List HistoryOp}
    (hops : ∀ op ∈ ops, op.isEdgeStep = true) (hfresh : EveryCall (HistoryState.step pg) HistoryOp.Fresh ⟨x, s⟩ ops)
    {h : HistoryState} (hrun : run (HistoryState.step pg) ⟨x, s⟩ ops = some h) (me : Xid) :
    FollowedAreFound (h.xact.backend me) h.store ↔ InsertersSeen h me :=
  ChainVisibilityAux.followedAreFound_iff (ChainVisibilityAux.Holds.of_run hs hops hfresh hrun) me

/-- Transaction 4 links the two nodes and aborts; transaction 5 begins. -/
def abortedEdge : List HistoryOp := [.begin, .call (.insertEdge 4 .empty 1 7 1 2 []), .abort 4, .begin]

theorem followed_are_found_iff_two_nodes :
    ∃ h, run (HistoryState.step postgres) ⟨afterNodes, twoNodes⟩ abortedEdge = some h ∧
      (FollowedAreFound (h.xact.backend 5) h.store ↔ InsertersSeen h 5) := by
  have hsome : (run (HistoryState.step postgres) ⟨afterNodes, twoNodes⟩ abortedEdge).isSome = true := by decide +kernel
  obtain ⟨h, hrun⟩ := Option.isSome_iff_exists.mp hsome
  exact ⟨h, hrun, followed_are_found_iff postgres freshNodes_twoNodes afterNodes (by decide) (by decide +kernel) hrun 5⟩

/-- The adjacency leads to a relationship that is not found by its id. -/
def followsUnfound (h : HistoryState) : Bool :=
  match adjacencyFollow .empty h.store.nodes h.store.edges 1 .out none 1 with
  | some (.ok rs) => rs.any fun r => findEdgeById (h.xact.backend 5) h.store.edges r.edgeId ≠ some r
  | _ => false

/-- The edge of the aborted transaction is followed and not found. -/
theorem aborted_edge_is_followed :
    ∃ h, run (HistoryState.step postgres) ⟨afterNodes, twoNodes⟩ abortedEdge = some h ∧
      ¬FollowedAreFound (h.xact.backend 5) h.store := by
  have hrun : (run (HistoryState.step postgres) ⟨afterNodes, twoNodes⟩ abortedEdge).any (fun h =>
      decide ((edgeItems h.store.edges).length ≤ 1) && followsUnfound h) = true := by decide +kernel
  obtain ⟨h, hrun, hc⟩ := (Option.any_eq_true _ _).mp hrun
  refine ⟨h, hrun, fun hfound => ?_⟩
  simp only [Bool.and_eq_true, decide_eq_true_eq] at hc
  obtain ⟨hlen, hc⟩ := hc
  unfold followsUnfound at hc
  split at hc
  · next rs hrs =>
    obtain ⟨r, hr, hne⟩ := List.any_eq_true.mp hc
    exact of_decide_eq_true hne (hfound .empty 1 .out none 1 rs hlen hrs r hr)
  · cases hc

end PgEddy
