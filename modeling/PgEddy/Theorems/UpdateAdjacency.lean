import PgEddy.Lemmas.Adjacency

/-!
# Updates and adjacency

A node keeps its adjacency slot for good: `update_node` copies the slot into the new version. The header that a slot names is one
of its own page, so the slot still names the node's header only as long as the new version stays on the page of the old one.
-/

namespace PgEddy

open Machine

/-- The call is an `update_node`. -/
def GraphOp.isUpdate : GraphOp → Bool
  | .updateNode .. => true
  | _ => false

/-- An update that returns true leaves what `adjacency_follow` returns as it was: for every node, direction and filter, through
every cache. -/
def GraphOp.UpdateKeepsAdjacency (pg : PgSys) (s : Store) (op : GraphOp) : Prop :=
  op.isUpdate = true → (op.call pg s).2 = .ok true →
    ∀ (cache : LocationCache) (n : Int64) (direction : Direction) (relTypeFilter : Option Int32) (fuel : Nat),
      adjacencyFollow cache (op.call pg s).1.nodes (op.call pg s).1.edges n direction relTypeFilter fuel =
        adjacencyFollow cache s.nodes s.edges n direction relTypeFilter fuel

namespace UpdateAux

variable {nodes : Relation} {xid : Xid} {nodeId : Int64} {labelIds : List Int32} {propBytes : Bytes} {blk off slot : Nat}
  {page : Page}

/-- The versions after an update that stays on its page. -/
theorem versionAt_stayed (hp : nodes[blk]? = some page) (loc : Nat × Nat) :
    versionAt (pushAt (setXmaxAt nodes blk off xid) blk
        (newVersion xid nodeId slot labelIds propBytes 0 blk (page.maxOffset + 1))) loc =
      if loc = (blk, page.maxOffset + 1) then
        some (newVersion xid nodeId slot labelIds propBytes 0 blk (page.maxOffset + 1))
      else versionAt (setXmaxAt nodes blk off xid) loc := by
  have hp' : (setXmaxAt nodes blk off xid)[blk]? = some (page.modifyItem off (Item.mapHdr (·.setXmax xid))) := by
    rw [getElem?_setXmaxAt, if_pos rfl, hp, Option.map_some]
  rw [versionAt_pushAt hp' (length_newVersion ..), Page.maxOffset_modifyItem]

/-- Every node is located on the same block with the same slot as before. -/
theorem located_stayed (hp : nodes[blk]? = some page) (hloc : Located nodes nodeId blk off slot) {n : Int64} {b o a : Nat}
    (h : Located nodes n b o a) :
    ∃ o', Located (pushAt (setXmaxAt nodes blk off xid) blk
      (newVersion xid nodeId slot labelIds propBytes 0 blk (page.maxOffset + 1))) n b o' a := by
  obtain ⟨v, hv, -, hvi, hvs⟩ := hloc
  obtain ⟨w, hw, hwu, hwi, hws⟩ := h
  by_cases he : (b, o) = (blk, off)
  · cases he
    cases hv.symm.trans hw
    refine ⟨page.maxOffset + 1, newVersion xid nodeId slot labelIds propBytes 0 blk (page.maxOffset + 1), ?_, rfl, ?_, ?_⟩
    · rw [versionAt_stayed hp, if_pos rfl]
    · rw [nodeId_newVersion, ← hvi, hwi]
    · rw [slot_newVersion, ← hvs, Nat.mod_eq_of_lt v.slot_lt, hws]
  · have hne : ¬(b, o) = (blk, page.maxOffset + 1) := by
      intro h
      cases h
      obtain ⟨p, hp', hpw⟩ := versionAt_eq_some.mp hw
      cases hp.symm.trans hp'
      have := (Page.offset_of_versionAt hpw).2
      omega
    exact ⟨o, w, by rw [versionAt_stayed hp, if_neg hne, versionAt_setXmaxAt hv, if_neg he, hw], hwu, hwi, hws⟩

/-- Only nodes that were located are. -/
theorem located_of_stayed (hp : nodes[blk]? = some page) (hloc : Located nodes nodeId blk off slot) {n : Int64} {b o a : Nat}
    (h : Located (pushAt (setXmaxAt nodes blk off xid) blk
      (newVersion xid nodeId slot labelIds propBytes 0 blk (page.maxOffset + 1))) n b o a) :
    ∃ b' o' a', Located nodes n b' o' a' := by
  obtain ⟨w, hw, hwu, hwi, hws⟩ := h
  rw [versionAt_stayed hp] at hw
  split at hw
  · cases hw
    rw [nodeId_newVersion] at hwi
    exact ⟨blk, off, slot, hwi ▸ hloc⟩
  · obtain ⟨v, hv, -⟩ := hloc
    exact ⟨b, o, a, w, (versionAt_setXmaxAt_unmarked hv hw hwu).2, hwu, hwi, hws⟩

/-- One update that finds room on the page keeps every adjacency. -/
theorem updateKeepsAdjacency_of_fits {pg : PgSys} {s : Store} {op : GraphOp} (hs : Sound s) (hfits : op.UpdateFits s) :
    op.UpdateKeepsAdjacency pg s := by
  intro hup htrue cache' n direction relTypeFilter fuel
  cases op with
  | updateNode xid cache nodeId labelIds propBytes =>
    simp only [GraphOp.call] at htrue ⊢
    rcases updateNode_cases pg xid cache nodeId labelIds propBytes hs.nodePages with
      ⟨r, hr, -, hne⟩ | ⟨blk, off, slot, hl, hb, hfind, hloc, hr⟩
    · rw [hr] at htrue
      exact absurd htrue hne
    obtain ⟨v, hv, -⟩ := id hloc
    obtain ⟨page, hp, hpv⟩ := versionAt_eq_some.mp hv
    have hfit : page.fits (42 + labelIds.length * 4 + propBytes.length) = true := by
      have := hfits hl hb
      simpa [newVersionFits, hfind, hp, buildNodeItemBytes] using this
    have heff := updateNodeAt_effect pg xid hs.nodePages hl hb hfind hloc
    have hn' := (hs.toWellFormed.effect heff).nodePages
    have hu' := hs.unique.effect hs.toWellFormed (show GraphOp.FreshNode s (.updateNode ..) from trivial) heff
    have hres := updateNodeAt_result pg xid nodeId slot hs.nodePages hl hb hp hpv
    simp only [hr]
    generalize updateNodeAt pg xid s nodeId labelIds propBytes blk off slot = out at hn' hu' hres ⊢
    cases hres with
    | stayed _ =>
      exact adjacencyFollow_congr hs.nodePages hs.unique hn' hu' s.edges (by simp)
        (fun b o a h => located_stayed hp hloc h) (fun b o a h => located_of_stayed hp hloc h)
        (fun b o a _ => by rw [headerAt_pushAt, headerAt_setXmaxAt]) cache' direction relTypeFilter fuel
    | moved hf _ _ _ _ => rw [hfit] at hf; cases hf
    | failed hf _ _ => rw [hfit] at hf; cases hf
  | _ => cases hup

end UpdateAux

/-- On every run of the graph store from an empty one whose updates find room on the page of the old version, every update that
returns true leaves every adjacency as it was. -/
theorem update_keeps_adjacency (pg : PgSys) (ops : List GraphOp)
    (hfresh : EveryCall (GraphOp.step pg) GraphOp.Fresh Store.empty ops)
    (hfits : EveryCall (GraphOp.step pg) GraphOp.UpdateFits Store.empty ops) :
    EveryCall (GraphOp.step pg) (GraphOp.UpdateKeepsAdjacency pg) Store.empty ops :=
  EveryCall.of_invariant (I := Sound) (fun _ _ _ hs hc ht => hs.step hc.1 ht)
    (fun _ _ hs hc => UpdateAux.updateKeepsAdjacency_of_fits hs hc.2) sound_empty (hfresh.and hfits)

/-- A page with two nodes, an edge between them and an update of its source. -/
def smallUpdateRun : List GraphOp :=
  [.insertNode 3 1 [] [], .insertNode 3 2 [5] [1, 2], .insertEdge 3 .empty 1 4 1 2 [], .updateNode 4 .empty 1 [6] [7]]

theorem update_keeps_adjacency_small_run :
    EveryCall (GraphOp.step postgres) (GraphOp.UpdateKeepsAdjacency postgres) Store.empty smallUpdateRun :=
  update_keeps_adjacency postgres smallUpdateRun (by decide +kernel) (by decide +kernel)

/-- Ten nodes with the longest inline properties fill the first node page; node 1 points to node 2. -/
def fullPageRun : List GraphOp :=
  [1, 2, 3, 4, 5, 6, 7, 8, 9, 10].map (fun nodeId => .insertNode 3 nodeId [] (List.replicate propInlineMax 0)) ++
    [.insertEdge 3 .empty 1 4 1 2 []]

/-- The update that finds no room on the full page: the new version of node 1 goes to block 1 and keeps slot 0, which there is
the slot of no node. -/
def movingUpdate : GraphOp := .updateNode 4 .empty 1 [] (List.replicate propInlineMax 0)

/-- Node 1 loses its edge by an update that returns true. -/
theorem moving_update_loses_edge :
    EveryCall (GraphOp.step postgres) GraphOp.Fresh Store.empty (fullPageRun ++ [movingUpdate]) ∧
      ¬EveryCall (GraphOp.step postgres) (GraphOp.UpdateKeepsAdjacency postgres) Store.empty
        (fullPageRun ++ [movingUpdate]) := by
  refine ⟨by decide +kernel, fun h => ?_⟩
  have hrun : (run (GraphOp.step postgres) Store.empty fullPageRun).any (fun s =>
      let out := movingUpdate.call postgres s
      decide (out.2 = .ok true) &&
        decide (adjacencyFollow .empty out.1.nodes out.1.edges 1 .out none 3 ≠
          adjacencyFollow .empty s.nodes s.edges 1 .out none 3)) = true := by decide +kernel
  obtain ⟨s, hs, hc⟩ := (Option.any_eq_true _ _).mp hrun
  simp only [Bool.and_eq_true, decide_eq_true_eq] at hc
  have hlast := (everyCall_append h hs).2 _ (GraphOp.step_of_ok hc.1)
  exact hc.2 (hlast.1 rfl hc.1 .empty 1 .out none 3)

end PgEddy
