import PgEddy.EdgeIndex
import PgEddy.Lemmas.NodeReads
import PgEddy.Theorems.ChainVisibility

/-!
# What find_edges returns

With a type the two tables answer, which hold a row for every live relationship. Without one a chain answers, and the chains hold
every relationship without a deleter: the two part on what a reader does not see inserted or does not see deleted.
-/

namespace PgEddy

open Machine

namespace EdgeItem

def relTypeId (e : EdgeItem) : Int32 := relTypeIdOf e.data

/-- The row of `edge_type_src`. -/
def srcRow (e : EdgeItem) : EdgeTypeRow := ⟨e.relTypeId, e.source, e.edgeId⟩

/-- The row of `edge_type_dst`. -/
def dstRow (e : EdgeItem) : EdgeTypeRow := ⟨e.relTypeId, e.target, e.edgeId⟩

/-- The reader sees the inserter, and does not see a deleter. -/
def liveTo (e : EdgeItem) (x : XactState) (me : Xid) : Bool := x.seenBy me e.hdr.xmin && (e.undeleted || !x.seenBy me e.hdr.xmax)

/-- The filters on the ends. -/
def matchesEnds (e : EdgeItem) (srcNodeId dstNodeId : Option Int64) : Bool :=
  srcNodeId.all (fun s => e.source == s) && dstNodeId.all (fun d => e.target == d)

/-- All three filters. -/
def matchesAll (e : EdgeItem) (srcNodeId dstNodeId : Option Int64) (typeId : Option Int32) : Bool :=
  e.matchesEnds srcNodeId dstNodeId && typeId.all (fun t => e.relTypeId == t)

end EdgeItem

/-- The live edges of a reader. -/
def HistoryState.liveEdges (h : HistoryState) (me : Xid) : List EdgeItem :=
  (edgeItems h.store.edges).filter (fun e => e.liveTo h.xact me)

/-- Both tables hold one row for each edge. -/
structure EdgeTables.OneRowEach (tables : EdgeTables) (edges : List EdgeItem) : Prop where
  src : tables.edgeTypeSrc.Perm (edges.map EdgeItem.srcRow)
  dst : tables.edgeTypeDst.Perm (edges.map EdgeItem.dstRow)

/-- The id of each of the edges that meet a condition, once, and no other. -/
def OnceEach (edges : List EdgeItem) (p : EdgeItem → Bool) (ids : List Int64) : Prop :=
  ids.Nodup ∧ ∀ id, id ∈ ids ↔ ∃ e ∈ edges, p e = true ∧ e.edgeId = id

namespace EdgeSearchAux

variable {edges : List EdgeItem} {p q : EdgeItem → Bool} {ids : List Int64}

theorem onceEach_of_perm (hd : (edges.map EdgeItem.edgeId).Nodup) (h : ids.Perm ((edges.filter p).map EdgeItem.edgeId)) :
    OnceEach edges p ids := by
  refine ⟨h.nodup_iff.mpr (hd.sublist (List.filter_sublist.map _)), fun id => ?_⟩
  rw [h.mem_iff, List.mem_map]
  simp only [List.mem_filter, and_assoc]

/-- What a table says of the edges that meet a condition on the row. -/
theorem select_perm {rows : List EdgeTypeRow} {row : EdgeItem → EdgeTypeRow} (h : rows.Perm (edges.map row))
    (hid : ∀ e, (row e).edgeId = e.edgeId) (f : EdgeTypeRow → Bool) :
    ((rows.filter f).map EdgeTypeRow.edgeId).Perm ((edges.filter (fun e => f (row e))).map EdgeItem.edgeId) := by
  refine ((h.filter f).map _).trans (List.Perm.of_eq ?_)
  rw [List.filter_map, List.map_map]
  exact List.map_congr_left fun e _ => hid e

/-- The ids of two answers are those of the edges that meet both conditions. -/
theorem OnceEach.inter {ids' : List Int64} (hinj : ∀ e ∈ edges, ∀ d ∈ edges, e.edgeId = d.edgeId → e = d)
    (h : OnceEach edges p ids) (h' : OnceEach edges q ids') :
    OnceEach edges (fun e => p e && q e) (ids.filter (fun id => ids'.contains id)) := by
  refine ⟨h.1.filter _, fun id => ?_⟩
  rw [List.mem_filter, List.contains_iff_mem, h.2, h'.2]
  constructor
  · rintro ⟨⟨e, he, hp, rfl⟩, ⟨d, hd, hq, hid⟩⟩
    obtain rfl := hinj d hd e he hid
    exact ⟨d, hd, Bool.and_eq_true_iff.mpr ⟨hp, hq⟩, rfl⟩
  · rintro ⟨e, he, hpq, rfl⟩
    obtain ⟨hp, hq⟩ := Bool.and_eq_true_iff.mp hpq
    exact ⟨⟨e, he, hp, rfl⟩, e, he, hq, rfl⟩

/-- The walk from a node returns the chain of the node, which is empty where the node has no location. -/
theorem adjacencyFollow_eq_followed {nodes : Relation} {inserters : Xid → Prop} {s : Store} {g : List StoredEdge}
    (h : HoldsGraph nodes inserters (s, g)) {cache : LocationCache} {n : Int64} (hc : CacheInRange cache s.nodes n)
    {isOutChain : Bool} {fuel : Nat} (hf : (edgeItems s.edges).length ≤ fuel) :
    adjacencyFollow cache s.nodes s.edges n (if isOutChain then .out else .in) none fuel =
      some (.ok (walk s.edges isOutChain n none)) := by
  have hdir : followed s.edges n none (if isOutChain then .out else .in) = walk s.edges isOutChain n none := by
    cases isOutChain <;> rfl
  by_cases hl : ∃ b o a, Located s.nodes n b o a
  · obtain ⟨b, o, a, hl⟩ := hl
    obtain ⟨hdr, hh⟩ := h.headers n b o a hl
    rw [h.toLinked.adjacencyFollow hl hh hc _ none hf, hdir]
  · have hnone : findNodeLocation cache s.nodes n = .ok none := by
      have hscan : scanNodeLocation s.nodes n = none :=
        (scanNodeLocation_eq_none h.nodePages).mpr fun b o a hl' => hl ⟨b, o, a, hl'⟩
      rw [findNodeLocation_eq h.nodePages h.unique, hscan]
      cases hcn : cache n with
      | none => rfl
      | some bo => exact if_pos (hc bo.1 bo.2 hcn)
    have hempty : walk s.edges isOutChain n none = [] := by
      rw [walk, thread, List.filter_eq_nil_iff.mpr, List.reverse_nil, List.filterMap_nil]
      intro e he hend
      obtain ⟨b, o, a, hl'⟩ := h.endpoints e he isOutChain
      exact hl ⟨b, o, a, (Located.congr h.kept).mpr (eq_of_beq hend ▸ hl')⟩
    rw [adjacencyFollow_eq h.nodePages, hnone, hempty]

/-- What the chains answer: the edges without a deleter. -/
theorem findEdgesAdjacent_eq {nodes : Relation} {inserters : Xid → Prop} {s : Store} {g : List StoredEdge}
    (h : HoldsGraph nodes inserters (s, g)) {cache : LocationCache} (hc : ∀ n, CacheInRange cache s.nodes n)
    {srcNodeId dstNodeId : Option Int64} {node : Int64} (hnode : srcNodeId.or dstNodeId = some node) {fuel : Nat}
    (hf : (edgeItems s.edges).length ≤ fuel) :
    ∃ ids, findEdgesAdjacent cache s.nodes s.edges srcNodeId dstNodeId none node fuel = some (.ok ids) ∧
      OnceEach (edgeItems s.edges) (fun e => e.undeleted && e.matchesEnds srcNodeId dstNodeId) ids := by
  obtain ⟨isOutChain, hdir, hend⟩ : ∃ isOutChain : Bool,
      (if srcNodeId.isSome then Direction.out else if dstNodeId.isSome then .in else .both) = (if isOutChain then .out else .in) ∧
        ∀ r : EdgeRecord, dstNodeId.all (fun d => r.targetNodeId == d) = true →
          srcNodeId.all (fun s => r.sourceNodeId == s) = true → r.endpoint isOutChain = node := by
    cases srcNodeId with
    | some src =>
      cases hnode
      exact ⟨true, rfl, fun r _ hs => by simpa [EdgeRecord.endpoint] using hs⟩
    | none =>
      cases dstNodeId with
      | none => cases hnode
      | some dst =>
        cases hnode
        exact ⟨false, rfl, fun r hd _ => by simpa [EdgeRecord.endpoint] using hd⟩
  rw [findEdgesAdjacent, hdir, adjacencyFollow_eq_followed h (hc node) hf]
  refine ⟨_, rfl, ?_, fun id => ?_⟩
  · rw [walk_eq]
    exact h.ids.nodup_live.sublist ((List.filter_sublist.trans (List.filter_sublist.trans List.filter_sublist)).map _)
  · simp only [List.mem_map, List.mem_filter, walk_eq, Bool.and_eq_true, decide_eq_true_eq]
    constructor
    · rintro ⟨r, ⟨⟨⟨hr, -⟩, hd⟩, hs⟩, rfl⟩
      obtain ⟨e, he, hu, hrec⟩ := mem_liveRecords.mp hr
      obtain ⟨hid, hends, -⟩ := EdgeItem.record_fields hrec
      have hsrc : r.sourceNodeId = e.source := hends true
      have hdst : r.targetNodeId = e.target := hends false
      rw [hdst] at hd
      rw [hsrc] at hs
      exact ⟨e, he, ⟨hu, by rw [EdgeItem.matchesEnds, hs, hd]; rfl⟩, hid.symm⟩
    · rintro ⟨e, he, ⟨hu, hm⟩, rfl⟩
      obtain ⟨r, hrec⟩ := Option.isSome_iff_exists.mp (h.decodes e he)
      obtain ⟨hid, hends, -⟩ := EdgeItem.record_fields hrec
      have hsrc : r.sourceNodeId = e.source := hends true
      have hdst : r.targetNodeId = e.target := hends false
      obtain ⟨hs, hd⟩ := Bool.and_eq_true_iff.mp hm
      rw [← hsrc] at hs
      rw [← hdst] at hd
      exact ⟨r, ⟨⟨⟨mem_liveRecords.mpr ⟨e, he, hu, hrec⟩, hend r hd hs, rfl⟩, hd⟩, hs⟩, hid⟩

/-- With a type the tables answer exactly. -/
theorem findEdges_of_type {nodes edgeRel : Relation} {cache : LocationCache} {tables : EdgeTables}
    (hd : (edges.map EdgeItem.edgeId).Nodup) (ht : tables.OneRowEach edges) (ensureRelType : String → Int32)
    (srcNodeId dstNodeId : Option Int64) (relType : String) (fuel : Nat) :
    ∃ ids, findEdges cache nodes edgeRel tables ensureRelType srcNodeId dstNodeId (some relType) fuel = some (.ok ids) ∧
      OnceEach edges (fun e => e.matchesAll srcNodeId dstNodeId (some (ensureRelType relType))) ids := by
  have hinj : ∀ e ∈ edges, ∀ d ∈ edges, e.edgeId = d.edgeId → e = d :=
    fun e he d hd' hid => List.inj_on_of_nodup_map hd he hd' hid
  have hsrc := fun src => onceEach_of_perm hd (select_perm ht.src (fun _ => rfl)
    (fun row => row.typeId == ensureRelType relType && row.nodeId == src))
  have hdst := fun dst => onceEach_of_perm hd (select_perm ht.dst (fun _ => rfl)
    (fun row => row.typeId == ensureRelType relType && row.nodeId == dst))
  have hcongr : ∀ {p q : EdgeItem → Bool} {ids : List Int64}, p = q → OnceEach edges p ids → OnceEach edges q ids :=
    fun h => h ▸ id
  cases srcNodeId with
  | some src =>
    cases dstNodeId with
    | some dst =>
      refine ⟨_, rfl, hcongr (funext fun e => ?_) (OnceEach.inter hinj (hsrc src) (hdst dst))⟩
      simp only [EdgeItem.matchesAll, EdgeItem.matchesEnds, EdgeItem.srcRow, EdgeItem.dstRow, Option.all_some]
      cases e.relTypeId == ensureRelType relType <;> simp
    | none =>
      refine ⟨_, rfl, hcongr (funext fun e => ?_) (hsrc src)⟩
      simp [EdgeItem.matchesAll, EdgeItem.matchesEnds, EdgeItem.srcRow, Bool.and_comm]
  | none =>
    cases dstNodeId with
    | some dst =>
      refine ⟨_, rfl, hcongr (funext fun e => ?_) (hdst dst)⟩
      simp [EdgeItem.matchesAll, EdgeItem.matchesEnds, EdgeItem.dstRow, Bool.and_comm]
    | none =>
      refine ⟨_, rfl, hcongr (funext fun e => ?_) (onceEach_of_perm hd (select_perm ht.src (fun _ => rfl)
        (fun row => row.typeId == ensureRelType relType)))⟩
      simp [EdgeItem.matchesAll, EdgeItem.matchesEnds, EdgeItem.srcRow]

/-- Two conditions pick the same ids exactly if they pick the same edges. -/
theorem onceEach_congr_iff (hd : (edges.map EdgeItem.edgeId).Nodup) (h : OnceEach edges p ids) :
    OnceEach edges q ids ↔ ∀ e ∈ edges, p e = q e := by
  have hinj : ∀ e ∈ edges, ∀ d ∈ edges, e.edgeId = d.edgeId → e = d :=
    fun e he d hd' hid => List.inj_on_of_nodup_map hd he hd' hid
  have hmem : ∀ {f : EdgeItem → Bool}, OnceEach edges f ids → ∀ e ∈ edges, (e.edgeId ∈ ids ↔ f e = true) := by
    intro f hf e he
    rw [hf.2]
    exact ⟨fun ⟨d, hd, hp, hid⟩ => hinj d hd e he hid ▸ hp, fun hp => ⟨e, he, hp, rfl⟩⟩
  constructor
  · intro hq e he
    exact Bool.eq_iff_iff.mpr ((hmem h e he).symm.trans (hmem hq e he))
  · intro hpq
    refine ⟨h.1, fun id => (h.2 id).trans ?_⟩
    constructor
    · rintro ⟨e, he, hp, rfl⟩
      exact ⟨e, he, hpq e he ▸ hp, rfl⟩
    · rintro ⟨e, he, hq, rfl⟩
      exact ⟨e, he, (hpq e he).symm ▸ hq, rfl⟩

/-- The edges of a list that meet a condition are those of a larger list that are in the smaller one. -/
theorem onceEach_filter : OnceEach (edges.filter p) q ids ↔ OnceEach edges (fun e => p e && q e) ids := by
  simp only [OnceEach, List.mem_filter, Bool.and_eq_true, and_assoc]

end EdgeSearchAux

/-- What `find_edges` owes its caller: it ends, with the id of each live edge that passes every given filter, once, and no other. -/
def FindsLiveEdges (h : HistoryState) (me : Xid) (cache : LocationCache) (tables : EdgeTables) (ensureRelType : String → Int32)
    (srcNodeId dstNodeId : Option Int64) (relType : Option String) (fuel : Nat) : Prop :=
  ∃ ids, findEdges cache h.store.nodes h.store.edges tables ensureRelType srcNodeId dstNodeId relType fuel = some (.ok ids) ∧
    OnceEach (h.liveEdges me) (fun e => e.matchesAll srcNodeId dstNodeId (relType.map ensureRelType)) ids

/-- Transaction 4 links the two nodes twice, in parallel, and the first with itself, and commits. -/
def parallelLinks : List HistoryOp :=
  [.begin, .call (.insertEdge 4 .empty 1 7 1 2 []), .call (.insertEdge 4 .empty 2 7 1 2 []),
    .call (.insertEdge 4 .empty 3 8 1 1 []), .commit 4]

/-- The rows of three edges. -/
def parallelTables : EdgeTables := ⟨[⟨7, 1, 1⟩, ⟨7, 1, 2⟩, ⟨8, 1, 3⟩], [⟨7, 2, 1⟩, ⟨7, 2, 2⟩, ⟨8, 1, 3⟩]⟩

end PgEddy
