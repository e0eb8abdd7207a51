import Mathlib.Data.List.Induction
import PgEddy.Lemmas.EdgeReplays
import PgEddy.Lemmas.EdgeGraph

/-!
# Replaying the log of edge insertions and deletions

`insert_edge` logs the edge first and the headers that name it afterwards, so that at every cut of the log a header names an
edge that is already there, and an edge points to edges that were there before it.
-/

namespace PgEddy

open Machine LinkedChain

/-- Every head in a header and every next pointer names an existing edge item, and every chain ends. -/
structure ChainsWellFormed (nodes edges : Relation) : Prop where
  heads : ∀ loc hdr isOutChain a, headerAt nodes loc = some hdr → link (hdr.head isOutChain) = some a → (edgeAt edges a).isSome
  nexts : ∀ loc e isOutChain a, edgeAt edges loc = some e → link (nextOf e.data isOutChain) = some a → (edgeAt edges a).isSome
  headChains : ∀ loc hdr isOutChain, headerAt nodes loc = some hdr →
    ∃ l, Chain (chainNext edges isOutChain) (link (hdr.head isOutChain)) l
  itemChains : ∀ loc isOutChain, (edgeAt edges loc).isSome → ∃ l, Chain (chainNext edges isOutChain) (some loc) l

/-- The fields of an edge item that readers use. -/
structure EdgeFields where
  xmin : Xid
  xmax : Xid
  xminCommitted : Bool
  xminInvalid : Bool
  xmaxInvalid : Bool
  nextOut : Nat × Nat
  nextIn : Nat × Nat
  record : Option EdgeRecord
  deriving DecidableEq, Repr

def EdgeItem.fields (e : EdgeItem) : EdgeFields where
  xmin := e.hdr.xmin
  xmax := e.hdr.xmax
  xminCommitted := e.hdr.xminCommitted
  xminInvalid := e.hdr.xminInvalid
  xmaxInvalid := e.hdr.xmaxInvalid
  nextOut := nextOf e.data true
  nextIn := nextOf e.data false
  record := e.record

namespace EdgeReplayAux

/-! ### What every call keeps -/

theorem Anchored.wellFormed {nodes edges : Relation} (h : Anchored nodes edges) : ChainsWellFormed nodes edges where
  heads := fun loc hdr isOutChain a hh ha => mem_edgeLocs.mp (h.heads loc hdr isOutChain a hh ha)
  nexts := fun loc e isOutChain a he ha => by
    refine mem_edgeLocs.mp ((h.back isOutChain).mem (mem_edgeLocs.mpr (he ▸ rfl : (edgeAt edges loc).isSome)) ?_)
    rw [chainNext, he]
    exact ha
  headChains := fun loc hdr isOutChain hh => by
    cases hl : link (hdr.head isOutChain) with
    | none => exact ⟨[], .nil⟩
    | some a => exact (h.back isOutChain).chain (h.heads loc hdr isOutChain a hh hl)
  itemChains := fun loc isOutChain he => (h.back isOutChain).chain (mem_edgeLocs.mpr he)

/-! ### Replaying with every cut in view -/

/-- The records are redone one after the other, from `nodes` and `edges` to `nodes'` and `edges'`, and the chains are anchored
before the first, between any two and after the last. -/
inductive AnchoredReplay (pg : PgSys) : Relation → Relation → List WalRecord → Relation → Relation → Prop where
  | nil {nodes edges : Relation} : Anchored nodes edges → AnchoredReplay pg nodes edges [] nodes edges
  | cons {nodes edges nodes₁ edges₁ nodes' edges' : Relation} {r : WalRecord} {rs : List WalRecord} :
      Anchored nodes edges → rmgrRedo pg nodes edges r = .ok (nodes₁, edges₁) →
      AnchoredReplay pg nodes₁ edges₁ rs nodes' edges' → AnchoredReplay pg nodes edges (r :: rs) nodes' edges'

namespace AnchoredReplay

variable {pg : PgSys} {nodes edges nodes₁ edges₁ nodes' edges' : Relation} {ws ws₁ ws' : List WalRecord}

theorem replay (h : AnchoredReplay pg nodes edges ws nodes' edges') : replay pg nodes edges ws = .ok (nodes', edges') := by
  induction h with
  | nil _ => rfl
  | cons _ hr _ ih =>
    simp only [PgEddy.replay, hr]
    exact ih

theorem append (h : AnchoredReplay pg nodes edges ws nodes₁ edges₁) (h' : AnchoredReplay pg nodes₁ edges₁ ws₁ nodes' edges') :
    AnchoredReplay pg nodes edges (ws ++ ws₁) nodes' edges' := by
  induction h with
  | nil _ => exact h'
  | cons ha hr _ ih => exact .cons ha hr (ih h')

/-- Every prefix of the records leaves anchored chains. -/
theorem cut (h : AnchoredReplay pg nodes edges ws nodes' edges') (hp : ws' <+: ws) :
    ∃ n e, PgEddy.replay pg nodes edges ws' = .ok (n, e) ∧ Anchored n e := by
  induction h generalizing ws' with
  | nil ha =>
    rw [List.prefix_nil.mp hp]
    exact ⟨_, _, rfl, ha⟩
  | cons ha hr _ ih =>
    rcases List.prefix_cons_iff.mp hp with rfl | ⟨t, rfl, ht⟩
    · exact ⟨_, _, rfl, ha⟩
    · obtain ⟨n, e, he, hn⟩ := ih ht
      refine ⟨n, e, ?_, hn⟩
      simp only [PgEddy.replay, hr]
      exact he

end AnchoredReplay

/-! ### One call -/

/-- What a call on edges can do, page by page, and what it logs. -/
inductive EdgeEffect (s : Store) : Store → Prop where
  | same : EdgeEffect s s
  | linked {sb sa tb ta : Nat} {srcAdj tgtAdj : NodeAdjHeader} {pre : Relation} {page : Page} {xid : Xid} {edgeId : Int64}
      {relTypeId : Int32} {src tgt : Int64} {propBytes : Bytes} {e : EdgeItem} :
      headerAt s.nodes (sb, sa) = some srcAdj → headerAt s.nodes (tb, ta) = some tgtAdj → EdgeBlock s.edges pre page →
      page.fits e.item.len = true →
      e = newEdge xid edgeId relTypeId src tgt srcAdj tgtAdj propBytes (pre.length, page.maxOffset + 1) →
      EdgeEffect s { nodes := pushHeads s.nodes sb sa tb ta srcAdj tgtAdj e.loc, edges := pre ++ [page.push e.item],
                     wal := s.wal ++ linkRecords (.tuple (HeapTupleHeader.fresh xid) e.data) sb sa tb ta srcAdj tgtAdj e.loc }
  | marked {e : EdgeItem} {xid : Xid} : e ∈ edgeItems s.edges →
      EdgeEffect s { s with edges := setXmaxAt s.edges e.loc.1 e.loc.2 xid, wal := s.wal ++ [.edgeDelete e.loc.1 e.loc.2 xid] }

theorem edgeEffect {pg : PgSys} {s t : Store} {op : GraphOp} (h : WellFormed s) (hop : op.isEdgeCall = true)
    (ht : op.step pg s = some t) : EdgeEffect s t := by
  rw [GraphOp.step_eq ht]
  cases op with
  | insertNode | updateNode | deleteNode => cases hop
  | insertEdge xid cache edgeId relTypeId src tgt propBytes =>
    rcases insertEdge_cases pg xid cache edgeId relTypeId src tgt propBytes h.nodePages with
      ⟨e, he, -⟩ | ⟨sb, sOff, sa, tb, tOff, ta, srcAdj, tgtAdj, hb, -, -, hs, ht, he⟩
    · simp only [GraphOp.call, he]
      exact .same
    · simp only [GraphOp.call, he]
      rcases linkEdge_cases pg xid edgeId relTypeId src tgt sb sa tb ta srcAdj tgtAdj h.edgePages hb with
        hl | ⟨pre, page, e, hblock, hfit, heq, hl⟩
      · rw [hl]
        exact .same
      · rw [hl]
        exact .linked hs ht hblock hfit heq
  | deleteEdge xid edgeId =>
    rcases deleteEdge_cases xid s edgeId with ⟨hr, -⟩ | ⟨e, he, -, -, hr⟩
    · simp only [GraphOp.call, hr]
      exact .same
    · simp only [GraphOp.call, hr]
      exact .marked he

/-- The edge relation does not shrink. -/
theorem EdgeEffect.length_le {s t : Store} (h : EdgeEffect s t) : s.edges.length ≤ t.edges.length := by
  cases h with
  | same => exact Nat.le_refl _
  | marked _ => exact Nat.le_of_eq (length_setXmaxAt ..).symm
  | @linked _ _ _ _ _ _ pre _ _ _ _ _ _ _ _ _ _ hb _ _ =>
    cases hb with
    | last he => exact Nat.le_of_eq (by simp only [he, List.length_append, List.length_singleton])
    | fresh _ =>
      rw [List.length_append, List.length_singleton]
      exact Nat.le_succ _

theorem redoAdjUpdate_of_header {nodes : Relation} {blk idx : Nat} {old : NodeAdjHeader} (hdr : NodeAdjHeader)
    (h : headerAt nodes (blk, idx) = some old) :
    redoAdjUpdate nodes blk idx hdr = .ok (writeAdjHeaderAt nodes blk idx hdr) := by
  obtain ⟨p, hp, hr⟩ := headerAt_eq_some.mp h
  simp only [redoAdjUpdate, hp, hr]

/-- Writing a header twice is writing it once. -/
theorem writeAdjHeaderAt_twice (nodes : Relation) (blk idx : Nat) (hdr hdr' : NodeAdjHeader) :
    writeAdjHeaderAt (writeAdjHeaderAt nodes blk idx hdr) blk idx hdr' = writeAdjHeaderAt nodes blk idx hdr' := by
  unfold writeAdjHeaderAt modifyBlock
  rw [List.modify_modify_eq]
  congr 1
  funext p
  simp only [Function.comp_apply, writeAdjHeader, List.set_set]

/-- The records of a call are redone cut by cut, and lead from what recovery has built of the store before it to that of the
store after it. -/
theorem EdgeEffect.replay {pg : PgSys} {s t : Store} {n : Nat} {redone : Relation} (h : EdgeEffect s t) (hw : WellFormed s)
    (ha : Anchored s.nodes s.edges) (hr : EdgesRedone n s.edges redone) (hn : t.edges.length ≤ n) :
    ∃ ws redone', t.wal = s.wal ++ ws ∧ AnchoredReplay pg s.nodes redone ws t.nodes redone' ∧
      EdgesRedone n t.edges redone' := by
  cases h with
  | same => exact ⟨[], redone, (List.append_nil _).symm, .nil (hr.anchored ha), hr⟩
  | @marked e xid he =>
    have hr' := hr.setXmaxAt he xid
    exact ⟨_, _, rfl, .cons (hr.anchored ha) rfl (.nil (hr'.anchored (ha.setXmaxAt he xid))), hr'⟩
  | @linked sb sa tb ta srcAdj tgtAdj pre page xid edgeId relTypeId src tgt propBytes e hs ht hb hfit he =>
    have hpages := hb.edgePages hw.edgePages
    have hpage : page.IsEdgePage := hpages.pages page (by simp)
    have hpre : pre.length < n := by
      dsimp only at hn
      rw [List.length_append, List.length_singleton] at hn
      omega
    -- the logged item differs from the one on the page in the self-pointer only
    have hlogged : (Item.tuple (HeapTupleHeader.fresh xid) e.data).eraseCtid = e.item.eraseCtid := by rw [he]; rfl
    obtain ⟨redone', hredo, hr'⟩ := hr.push pg hb hpage.used hpre hlogged hfit
    have hloc : e.loc = (pre.length, page.maxOffset + 1) := by rw [he]; rfl
    have hitems : edgeItems (pre ++ [page.push e.item]) = edgeItems s.edges ++ [e] := by
      rw [EdgeItem.item, edgeItems_push _ _ _ _ (by rw [he]; simp only [newEdge, length_edgeData, edgeFixedDataSize]; omega),
        hb.edgeItems, ← hloc]
    have hmem : e.loc ∈ edgeLocs (pre ++ [page.push e.item]) := by
      unfold edgeLocs
      rw [hitems]
      simp
    -- the cuts: nothing, the edge, the header of the source, the header of the target
    have h0 := hr.anchored ha
    have hlink : Anchored s.nodes (pre ++ [page.push e.item]) :=
      ha.linkItem hw.edgePages hs ht (hitems.trans (congrArg (fun d => edgeItems s.edges ++ [d]) he))
    have h1 := hr'.anchored hlink
    have h2 := hr'.anchored (hlink.pushHeads hs ht hmem).1
    have h3 := hr'.anchored (hlink.pushHeads hs ht hmem).2
    have hinsert : rmgrRedo pg s.nodes redone
        (.edgeInsert e.loc.1 e.loc.2 (.tuple (HeapTupleHeader.fresh xid) e.data)) = .ok (s.nodes, redone') := by
      rw [hloc, rmgrRedo, hredo]
      rfl
    have hupdate : ∀ {nodes : Relation} {blk idx : Nat} {old : NodeAdjHeader} (hdr : NodeAdjHeader),
        headerAt nodes (blk, idx) = some old →
          rmgrRedo pg nodes redone' (.adjUpdate blk idx hdr) = .ok (writeAdjHeaderAt nodes blk idx hdr, redone') := by
      intro nodes blk idx old hdr hh
      rw [rmgrRedo, redoAdjUpdate_of_header hdr hh]
      rfl
    refine ⟨_, redone', rfl, ?_, hr'⟩
    dsimp only
    unfold linkRecords
    by_cases hself : sb = tb ∧ sa = ta
    · obtain ⟨rfl, rfl⟩ := hself
      simp only [and_self, if_true]
      refine .cons h0 hinsert (.cons h1 (hupdate _ hs) ?_)
      have heq : writeAdjHeaderAt s.nodes sb sa ((srcAdj.pushOut e.loc.1 e.loc.2).pushIn e.loc.1 e.loc.2) =
          pushHeads s.nodes sb sa sb sa srcAdj tgtAdj e.loc := by
        rw [pushHeads, writeAdjHeaderAt_twice, if_pos ⟨rfl, rfl⟩]
      rw [heq]
      exact .nil h3
    · have ht' : headerAt (writeAdjHeaderAt s.nodes sb sa (srcAdj.pushOut e.loc.1 e.loc.2)) (tb, ta) = some tgtAdj := by
        rw [headerAt_writeAdjHeaderAt _ hs, if_neg (fun h => hself ⟨(congrArg Prod.fst h).symm, (congrArg Prod.snd h).symm⟩), ht]
      simp only [hself, if_false]
      refine .cons h0 hinsert (.cons h1 (hupdate _ hs) (.cons h2 (hupdate _ ht') ?_))
      have heq : writeAdjHeaderAt (writeAdjHeaderAt s.nodes sb sa (srcAdj.pushOut e.loc.1 e.loc.2)) tb ta
          (tgtAdj.pushIn e.loc.1 e.loc.2) = pushHeads s.nodes sb sa tb ta srcAdj tgtAdj e.loc := by
        rw [pushHeads, if_neg hself]
      rw [heq]
      exact .nil h3

/-! ### Runs -/

theorem wellFormed_run {pg : PgSys} {os : List GraphOp} {s t : Store} (hw : WellFormed s) (ha : Anchored s.nodes s.edges)
    (hr : run (GraphOp.step pg) s os = some t) : WellFormed t ∧ Anchored t.nodes t.edges :=
  run_invariant (I := fun s => WellFormed s ∧ Anchored s.nodes s.edges) (C := fun _ _ => True)
    (fun _ _ _ hi _ hstep =>
      have he := GraphOp.effect hi.1 hstep
      ⟨hi.1.effect he, hi.2.effect hi.1 he⟩)
    ⟨hw, ha⟩ (EveryCall.of_forall fun _ _ => trivial) hr

/-- The log of a run of calls on edges is redone cut by cut. -/
theorem run_replay {pg : PgSys} {n : Nat} {s : Store} (hw : WellFormed s) (ha : Anchored s.nodes s.edges) (os : List GraphOp) :
    ∀ {t : Store}, (∀ op ∈ os, op.isEdgeCall = true) → run (GraphOp.step pg) s os = some t → t.edges.length ≤ n →
      s.edges.length ≤ t.edges.length ∧ ∃ ws redone, t.wal = s.wal ++ ws ∧
        AnchoredReplay pg s.nodes (zeroExtended s.edges n) ws t.nodes redone ∧ EdgesRedone n t.edges redone := by
  induction os using List.reverseRecOn with
  | nil =>
    intro t _ hr hn
    cases hr
    have hre := EdgesRedone.start hn
    exact ⟨Nat.le_refl _, [], _, (List.append_nil _).symm, .nil (hre.anchored ha), hre⟩
  | append_singleton os op ih =>
    intro t hops hr hn
    obtain ⟨u, hu, hstep⟩ := run_snoc.mp hr
    obtain ⟨hwu, hau⟩ := wellFormed_run hw ha hu
    have heff := edgeEffect hwu (hops op (by simp)) hstep
    have hlen := heff.length_le
    obtain ⟨hsu, ws, redone, hwal, hreplay, hre⟩ := ih (fun o ho => hops o (by simp [ho])) hu (Nat.le_trans hlen hn)
    obtain ⟨ws', redone', hwal', hreplay', hre'⟩ := heff.replay hwu hau hre hn
    exact ⟨Nat.le_trans hsu hlen, ws ++ ws', redone', by rw [hwal', hwal, List.append_assoc], hreplay.append hreplay', hre'⟩

end EdgeReplayAux

open EdgeReplayAux

/-- Two nodes. -/
def twoNodeInserts : List GraphOp := [.insertNode 3 1 [] [], .insertNode 3 2 [] []]

/-- Parallel edges, a self-loop on the second node, and a deletion. -/
def loopAndParallels : List GraphOp :=
  [.insertEdge 3 .empty 1 5 1 2 [9], .insertEdge 3 .empty 2 5 1 2 [], .insertEdge 4 .empty 3 6 2 2 [], .deleteEdge 5 1]

end PgEddy
