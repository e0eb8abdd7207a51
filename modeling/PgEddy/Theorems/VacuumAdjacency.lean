import PgEddy.Lemmas.VacuumReads

/-!
# Vacuum and adjacency

Vacuum clears the header of every record it takes away. The live version of an updated node has the slot of the versions before
it, so the header it still needs is cleared with the first of them.
-/

namespace PgEddy

open Machine

/-- The node is live: `find_node_location` has a version to find. -/
def LiveNode (s : Store) (n : Int64) : Prop := ∃ b o a, Located s.nodes n b o a

/-- A vacuum of the node relation goes through and leaves what `find_node_by_id` and `adjacency_follow` return for live nodes as
it was: for every reader, snapshot, cache, direction and filter. The fuel is enough for every walk. -/
def VacuumKeepsReads (pg : PgSys) (hz : VacuumHorizon) (s : Store) : Prop :=
  (∃ stats, (vacuumNodes pg hz s).2 = .ok stats) ∧
    ∀ n, LiveNode s n →
      (∀ be cache snapshot, findNodeById be cache (vacuumNodes pg hz s).1.nodes n snapshot =
        findNodeById be cache s.nodes n snapshot) ∧
      ∀ cache direction relTypeFilter fuel, (edgeItems s.edges).length ≤ fuel →
        adjacencyFollow cache (vacuumNodes pg hz s).1.nodes (vacuumNodes pg hz s).1.edges n direction relTypeFilter fuel =
          adjacencyFollow cache s.nodes s.edges n direction relTypeFilter fuel

/-- The versions the horizon removes name slots of the special area, and are of no live node with an undeleted edge. -/
def SafeToVacuum (hz : VacuumHorizon) (s : Store) : Prop :=
  ∀ loc v, versionAt s.nodes loc = some v → hz.removes v.hdr = true →
    v.slot < maxNodeSlotsPerPage ∧
      (LiveNode s v.nodeId → ∀ e ∈ edgeItems s.edges, e.undeleted = true → e.source ≠ v.nodeId ∧ e.target ≠ v.nodeId)

namespace VacuumAux

variable {pg : PgSys} {hz : VacuumHorizon} {s : Store}

/-- A vacuum goes through, or meets a slot outside the special area. -/
theorem vacuumNodes_cases (pg : PgSys) (hz : VacuumHorizon) (hn : NodePages s.nodes) :
    ((∀ loc v, versionAt s.nodes loc = some v → hz.removes v.hdr = true → v.slot < maxNodeSlotsPerPage) ∧
        (∃ stats, (vacuumNodes pg hz s).2 = .ok stats) ∧
        List.Forall₂ (Page.Vacuumed hz) s.nodes (vacuumNodes pg hz s).1.nodes ∧ (vacuumNodes pg hz s).1.edges = s.edges) ∨
      ((¬∀ loc v, versionAt s.nodes loc = some v → hz.removes v.hdr = true → v.slot < maxNodeSlotsPerPage) ∧
        (vacuumNodes pg hz s).2 = .error .outOfPage) := by
  rcases vacuumBlocks_cases pg hz s.nodes 0 hn with ⟨hall, nodes', stats, recs, hv, hrel⟩ | ⟨⟨p, hp, a, ha, hout⟩, hv⟩
  · refine Or.inl ⟨fun loc v hlv hr => ?_, ?_⟩
    · obtain ⟨p, hp, hpv⟩ := versionAt_eq_some.mp hlv
      exact hall p (List.mem_of_getElem? hp) _ (mem_deadAdjSlots.mpr ⟨loc.2, v, hpv, hr, rfl⟩)
    · simp only [vacuumNodes, vacuumRelation, blocks, hv]
      exact ⟨⟨stats, rfl⟩, hrel, trivial⟩
  · refine Or.inr ⟨fun hall => ?_, by simp only [vacuumNodes, vacuumRelation, blocks, hv]⟩
    obtain ⟨o, v, hpv, hr, rfl⟩ := mem_deadAdjSlots.mp ha
    obtain ⟨b, hb⟩ := List.getElem?_of_mem hp
    exact hout (hall (b, o) v (versionAt_eq_some.mpr ⟨p, hb, hpv⟩) hr)

/-- The walks from an empty header end at once. -/
theorem followHeader_zero (edges : Relation) (direction : Direction) (relTypeFilter : Option Int32) (fuel : Nat) :
    followHeader edges NodeAdjHeader.zero direction relTypeFilter fuel = some (.ok []) := by
  cases direction <;> simp [followHeader, NodeAdjHeader.zero, followChain_end, Except.map, retainFirst]

/-- The slots of the special area of a page with a version have headers. -/
theorem exists_header {nodes : Relation} (hn : NodePages nodes) {b o a : Nat} {v : NodeVersion}
    (hv : versionAt nodes (b, o) = some v) (ha : a < maxNodeSlotsPerPage) : ∃ hdr, headerAt nodes (b, a) = some hdr := by
  obtain ⟨p, hp, hpv⟩ := versionAt_eq_some.mp hv
  have hlt : a < p.special.length := by
    rw [(hn.isNodePage_of_versionAt hp hpv).headers]
    exact ha
  exact ⟨p.special[a], headerAt_eq_some.mpr ⟨p, hp, List.getElem?_eq_getElem hlt⟩⟩

/-- A node without undeleted edges has nothing to walk. -/
theorem followed_eq_nil {edges : Relation} {n : Int64}
    (h : ∀ e ∈ edgeItems edges, e.undeleted = true → e.source ≠ n ∧ e.target ≠ n) (relTypeFilter : Option Int32)
    (direction : Direction) : followed edges n relTypeFilter direction = [] := by
  have hwalk : ∀ isOutChain, walk edges isOutChain n relTypeFilter = [] := by
    intro isOutChain
    rw [walk, List.filterMap_eq_nil_iff]
    intro e he
    obtain ⟨hmem, hend⟩ := mem_thread.mp he
    have hu : ¬e.undeleted = true := by
      intro hu
      obtain ⟨h1, h2⟩ := h e hmem hu
      cases isOutChain
      · exact h2 hend
      · exact h1 hend
    rw [EdgeItem.walked, if_neg hu]
  cases direction <;> simp [followed, hwalk, retainFirst]

/-- An undeleted edge of a node is followed from the node. -/
theorem followed_ne_nil (h : Owned s) {n : Int64} {e : EdgeItem} (he : e ∈ edgeItems s.edges) (hu : e.undeleted = true)
    (hend : e.source = n ∨ e.target = n) : ∃ direction, followed s.edges n none direction ≠ [] := by
  obtain ⟨r, hr⟩ := Option.isSome_iff_exists.mp (h.decodes e he)
  have hwalk : ∀ isOutChain, e.endpoint isOutChain = n → walk s.edges isOutChain n none ≠ [] := by
    intro isOutChain hend hnil
    have hmem : r ∈ walk s.edges isOutChain n none :=
      List.mem_filterMap.mpr ⟨e, mem_thread.mpr ⟨he, hend⟩, by simp [EdgeItem.walked, hu, hr, passesFilter]⟩
    rw [hnil] at hmem
    cases hmem
  rcases hend with hend | hend
  · exact ⟨.out, hwalk true hend⟩
  · exact ⟨.in, hwalk false hend⟩

/-- What `adjacency_follow` returns after the vacuum when the node's own header was not cleared, or had nothing to walk. -/
theorem adjacencyFollow_vacuumed (h : Owned s) {nodes' : Relation} (hv : List.Forall₂ (Page.Vacuumed hz) s.nodes nodes')
    (hsafe : SafeToVacuum hz s) {n : Int64} (cache : LocationCache) (direction : Direction)
    (relTypeFilter : Option Int32) {fuel : Nat} (hf : (edgeItems s.edges).length ≤ fuel) :
    adjacencyFollow cache nodes' s.edges n direction relTypeFilter fuel =
      adjacencyFollow cache s.nodes s.edges n direction relTypeFilter fuel := by
  rw [adjacencyFollow_eq h.nodePages, adjacencyFollow_eq (nodePages_vacuumed hv h.nodePages), findNodeLocation_vacuumed hv]
  cases hfind : findNodeLocation cache s.nodes n with
  | error e => rfl
  | ok r =>
    match r with
    | none => rfl
    | some (b, o, a) =>
      have hloc := located_of_findNodeLocation h.nodePages hfind
      rcases headerAt_vacuumed hv (b := b) (a := a) with ⟨⟨o', v, hov, hr, hs⟩, hh⟩ | ⟨-, hh⟩
      · -- the cleared header is the node's own, and nothing hangs on it
        obtain ⟨hlt, hno⟩ := hsafe (b, o') v hov hr
        have hid : n = v.nodeId :=
          (h.owned.owner n v.nodeId b o a b o' a hloc.hasVersion ⟨v, hov, rfl, hs⟩).mpr ⟨rfl, rfl⟩
        have hno' := hno ⟨b, o, a, hid ▸ hloc⟩
        obtain ⟨hdr, hslot⟩ := exists_header h.nodePages hov (hs ▸ hlt)
        simp only [hh, hslot]
        rw [followHeader_zero, (h.threads n b o a _ hloc hslot).followHeader direction relTypeFilter hf,
          followed_eq_nil (hid ▸ hno')]
      · simp only [hh]

/-- A cleared header of a live node with an undeleted edge hides the edge. -/
theorem adjacencyFollow_cleared (h : Owned s) {nodes' : Relation} (hv : List.Forall₂ (Page.Vacuumed hz) s.nodes nodes')
    {loc : Nat × Nat} {v : NodeVersion} (hlv : versionAt s.nodes loc = some v) (hr : hz.removes v.hdr = true)
    (hlt : v.slot < maxNodeSlotsPerPage) (hlive : LiveNode s v.nodeId) {e : EdgeItem} (he : e ∈ edgeItems s.edges)
    (hu : e.undeleted = true) (hend : e.source = v.nodeId ∨ e.target = v.nodeId) :
    ∃ direction, adjacencyFollow .empty nodes' s.edges v.nodeId direction none (edgeItems s.edges).length ≠
      adjacencyFollow .empty s.nodes s.edges v.nodeId direction none (edgeItems s.edges).length := by
  obtain ⟨b, o, a, hloc⟩ := hlive
  obtain ⟨hb, ha⟩ := (h.owned.owner v.nodeId v.nodeId loc.1 loc.2 v.slot b o a ⟨v, hlv, rfl, rfl⟩ hloc.hasVersion).mp rfl
  subst hb ha
  obtain ⟨hdr, hslot⟩ := exists_header h.nodePages hlv hlt
  obtain ⟨direction, hne⟩ := followed_ne_nil h he hu hend
  refine ⟨direction, ?_⟩
  have hfind : findNodeLocation .empty s.nodes v.nodeId = .ok (some (loc.1, o, v.slot)) := by
    rw [findNodeLocation_eq h.nodePages h.unique]
    exact congrArg Except.ok (scanNodeLocation_of_located h.nodePages h.unique hloc)
  have hcleared : headerAt nodes' (loc.1, v.slot) = some NodeAdjHeader.zero := by
    rcases headerAt_vacuumed hv (b := loc.1) (a := v.slot) with ⟨-, hh⟩ | ⟨hno, -⟩
    · exact hh
    · exact absurd ⟨loc.2, v, hlv, hr, rfl⟩ hno
  rw [h.toLinked.adjacencyFollow hloc hslot (by intro _ _ hc; cases hc) direction none (Nat.le_refl _),
    adjacencyFollow_eq (nodePages_vacuumed hv h.nodePages), findNodeLocation_vacuumed hv, hfind]
  simp only [hcleared, followHeader_zero]
  intro heq
  exact hne (Except.ok.inj (Option.some.inj heq)).symm

end VacuumAux

open VacuumAux

/-- In every store that a run with fresh ids and updates that stay on their page leaves, a vacuum keeps all reads of live nodes
exactly if no version it removes names a slot outside the special area or is of a live node with an undeleted edge. -/
theorem vacuum_keeps_reads_iff (pg : PgSys) (hz : VacuumHorizon) {ops : List GraphOp} {s : Store}
    (hfresh : EveryCall (GraphOp.step pg) GraphOp.Fresh Store.empty ops)
    (hfits : EveryCall (GraphOp.step pg) GraphOp.UpdateFits Store.empty ops)
    (hrun : run (GraphOp.step pg) Store.empty ops = some s) : VacuumKeepsReads pg hz s ↔ SafeToVacuum hz s := by
  have h : Owned s := run_invariant (I := Owned) (fun _ _ _ hs hc ht => hs.step hc.1 hc.2 ht) owned_empty
    (hfresh.and hfits) hrun
  rcases vacuumNodes_cases pg hz h.nodePages with ⟨hslots, hok, hv, hedges⟩ | ⟨hout, herr⟩
  · constructor
    · rintro ⟨-, hkeep⟩ loc v hlv hr
      refine ⟨hslots loc v hlv hr, fun hlive e he hu => ?_⟩
      by_contra hend
      obtain ⟨direction, hne⟩ := adjacencyFollow_cleared h hv hlv hr (hslots loc v hlv hr) hlive he hu (by tauto)
      refine hne ?_
      have := (hkeep v.nodeId hlive).2 .empty direction none _ (Nat.le_refl _)
      rwa [hedges] at this
    · intro hsafe
      refine ⟨hok, fun n _ => ⟨fun be cache snapshot => findNodeById_vacuumed hv be cache n snapshot, ?_⟩⟩
      intro cache direction relTypeFilter fuel hf
      rw [hedges]
      exact adjacencyFollow_vacuumed h hv hsafe cache direction relTypeFilter hf
  · refine iff_of_false (fun hkeep => ?_) fun hsafe => hout fun loc v hlv hr => (hsafe loc v hlv hr).1
    obtain ⟨⟨stats, hok⟩, -⟩ := hkeep
    rw [herr] at hok
    cases hok

/-- Two nodes, an edge between them, and an update and a deletion that leave no live node with an edge and a dead version. -/
def vacuumedRun : List GraphOp :=
  [.insertNode 3 1 [] [], .insertNode 3 2 [] [], .insertNode 3 3 [] [], .insertEdge 3 .empty 1 4 1 2 [],
    .updateNode 4 .empty 3 [6] [7], .deleteNode 5 .empty 2]

/-- Every deleter below 6 has committed. -/
def pastSix : VacuumHorizon := ⟨6, fun _ => true⟩

theorem vacuum_keeps_reads_iff_vacuumed_run :
    ∃ s, run (GraphOp.step postgres) Store.empty vacuumedRun = some s ∧ VacuumKeepsReads postgres pastSix s := by
  have hsafe : (run (GraphOp.step postgres) Store.empty vacuumedRun).any (fun s : Store =>
      decide (∀ lv ∈ versions s.nodes, pastSix.removes lv.2.hdr = true → lv.2.slot < maxNodeSlotsPerPage ∧
        ∀ e ∈ edgeItems s.edges, e.source ≠ lv.2.nodeId ∧ (e.target ≠ lv.2.nodeId ∨
          scanNodeLocation s.nodes lv.2.nodeId = none))) = true := by decide +kernel
  obtain ⟨s, hs, hc⟩ := (Option.any_eq_true _ _).mp hsafe
  have hsound : Sound s := run_invariant (C := GraphOp.Fresh) (fun _ _ _ h hf ht => h.step hf ht) sound_empty
    (by decide +kernel) hs
  refine ⟨s, hs, (vacuum_keeps_reads_iff postgres pastSix (by decide +kernel) (by decide +kernel) hs).mpr ?_⟩
  intro loc v hlv hr
  obtain ⟨hlt, hno⟩ := of_decide_eq_true hc (loc, v) ((mem_versions hsound.nodePages).mpr hlv) hr
  refine ⟨hlt, fun ⟨b, o, a, hl⟩ e he _ => ?_⟩
  obtain ⟨hsrc, htgt⟩ := hno e he
  exact ⟨hsrc, htgt.resolve_right fun hnone => scanNodeLocation_eq_none hsound.nodePages |>.mp hnone b o a hl⟩

/-- Two nodes, an edge between them, and an update of its source. -/
def updatedSource : List GraphOp :=
  [.insertNode 3 1 [] [], .insertNode 3 2 [] [], .insertEdge 3 .empty 1 4 1 2 [], .updateNode 4 .empty 1 [6] [7]]

/-- The vacuum clears the header of the updated node, which loses its edge. -/
theorem vacuum_hides_edge :
    EveryCall (GraphOp.step postgres) GraphOp.Fresh Store.empty updatedSource ∧
      EveryCall (GraphOp.step postgres) GraphOp.UpdateFits Store.empty updatedSource ∧
      ∃ s, run (GraphOp.step postgres) Store.empty updatedSource = some s ∧ ¬VacuumKeepsReads postgres pastSix s := by
  refine ⟨by decide +kernel, by decide +kernel, ?_⟩
  have hrun : (run (GraphOp.step postgres) Store.empty updatedSource).any (fun s =>
      decide (scanNodeLocation s.nodes 1 = some (0, 3, 0)) && decide ((edgeItems s.edges).length ≤ 3) &&
        decide (adjacencyFollow .empty (vacuumNodes postgres pastSix s).1.nodes (vacuumNodes postgres pastSix s).1.edges 1
          .out none 3 ≠ adjacencyFollow .empty s.nodes s.edges 1 .out none 3)) = true := by decide +kernel
  obtain ⟨s, hs, hc⟩ := (Option.any_eq_true _ _).mp hrun
  simp only [Bool.and_eq_true, decide_eq_true_eq] at hc
  obtain ⟨⟨hloc, hlen⟩, hne⟩ := hc
  have hsound : Sound s := run_invariant (C := GraphOp.Fresh) (fun _ _ _ h hf ht => h.step hf ht) sound_empty
    (by decide +kernel) hs
  refine ⟨s, hs, fun hkeep => hne ?_⟩
  exact (hkeep.2 1 ⟨0, 3, 0, located_of_scanNodeLocation hsound.nodePages hloc⟩).2 .empty .out none 3 hlen

end PgEddy
