import PgEddy.Graph
import PgEddy.Lemmas.EdgeOps

/-!
# What a call of the graph store does and keeps

One inversion lemma says everything a call can do to the two relations (`GraphOp.effect`); what the calls keep is derived from
it. Ids are fresh when they are handed out by a sequence. With fresh node ids no two versions of a node are both without a
deleter, in every state: a mark takes one away, and a new version is written only where no other is left.
-/

namespace PgEddy

open Machine

/-- The ids a call hands out are new: no record of the store holds them. -/
def GraphOp.Fresh (s : Store) : GraphOp → Prop
  | .insertNode _ nodeId _ _ => ∀ lv ∈ versions s.nodes, lv.2.nodeId ≠ nodeId
  | .insertEdge _ _ edgeId _ _ _ _ => ∀ e ∈ edgeItems s.edges, e.edgeId ≠ edgeId
  | _ => True

instance (s : Store) : DecidablePred (GraphOp.Fresh s)
  | .insertNode _ nodeId _ _ => inferInstanceAs (Decidable (∀ lv ∈ versions s.nodes, lv.2.nodeId ≠ nodeId))
  | .insertEdge _ _ edgeId _ _ _ _ => inferInstanceAs (Decidable (∀ e ∈ edgeItems s.edges, e.edgeId ≠ edgeId))
  | .updateNode .. | .deleteNode .. | .deleteEdge .. => .isTrue trivial

/-- The id that a new node gets is new. -/
def GraphOp.FreshNode (s : Store) : GraphOp → Prop
  | .insertNode _ nodeId _ _ => ∀ lv ∈ versions s.nodes, lv.2.nodeId ≠ nodeId
  | _ => True

theorem GraphOp.Fresh.node {s : Store} {op : GraphOp} (h : op.Fresh s) : op.FreshNode s := by
  cases op with
  | insertNode => exact h
  | updateNode | deleteNode | insertEdge | deleteEdge => trivial

/-! ## No two unmarked versions -/

section Unique

variable {rel rel' : Relation}

theorem UniqueUnmarked.congr (h : UniqueUnmarked rel) (he : ∀ loc, versionAt rel' loc = versionAt rel loc) :
    UniqueUnmarked rel' := by
  intro loc loc' v v' hv hv'
  rw [he] at hv hv'
  exact h loc loc' v v' hv hv'

theorem UniqueUnmarked.grows (h : UniqueUnmarked rel) (hg : Grows rel rel') : UniqueUnmarked rel' := h.congr hg.versionAt

/-- After a mark the unmarked versions are the others. -/
theorem versionAt_setXmaxAt_unmarked {blk off : Nat} {v w : NodeVersion} {xid : Xid} {loc : Nat × Nat}
    (hv : versionAt rel (blk, off) = some v) (hw : versionAt (setXmaxAt rel blk off xid) loc = some w) (hu : w.unmarked) :
    loc ≠ (blk, off) ∧ versionAt rel loc = some w := by
  rw [versionAt_setXmaxAt hv] at hw
  split at hw
  · cases hw
    simp at hu
  · next hne => exact ⟨hne, hw⟩

theorem UniqueUnmarked.setXmaxAt (h : UniqueUnmarked rel) {blk off : Nat} {v : NodeVersion} (xid : Xid)
    (hv : versionAt rel (blk, off) = some v) : UniqueUnmarked (setXmaxAt rel blk off xid) := by
  intro loc loc' w w' hw hw' hu hu'
  exact h loc loc' w w' (versionAt_setXmaxAt_unmarked hv hw hu).2 (versionAt_setXmaxAt_unmarked hv hw' hu').2 hu hu'

/-- A new version may be written when the node has no unmarked one. -/
theorem UniqueUnmarked.pushAt (h : UniqueUnmarked rel) {blk : Nat} {page : Page} {v : NodeVersion}
    (hp : rel[blk]? = some page) (hl : nodeFixedDataSize ≤ v.data.length)
    (hnew : ∀ loc w, versionAt rel loc = some w → w.unmarked → w.nodeId ≠ v.nodeId) : UniqueUnmarked (pushAt rel blk v) := by
  intro loc loc' w w' hw hw' hu hu' hid
  rw [versionAt_pushAt hp hl] at hw hw'
  split at hw <;> split at hw'
  · next h1 h2 => exact h1.trans h2.symm
  · cases hw
    exact absurd hid.symm (hnew loc' w' hw' hu')
  · cases hw'
    exact absurd hid (hnew loc w hw hu)
  · exact h loc loc' w w' hw hw' hu hu' hid

/-- After a mark on the unmarked version of a node it has no other. -/
theorem UniqueUnmarked.none_after_mark (h : UniqueUnmarked rel) {nodeId : Int64} {blk off slot : Nat}
    (hl : Located rel nodeId blk off slot) (xid : Xid) {loc : Nat × Nat} {w : NodeVersion}
    (hw : versionAt (PgEddy.setXmaxAt rel blk off xid) loc = some w) (hu : w.unmarked) : w.nodeId ≠ nodeId := by
  obtain ⟨v, hv, hvu, hid, -⟩ := hl
  obtain ⟨hne, hw'⟩ := versionAt_setXmaxAt_unmarked hv hw hu
  intro he
  exact hne (h loc (blk, off) w v hw' hv hu hvu (he.trans hid.symm))

end Unique

/-! ## One call -/

/-- The new version of a node fits on the page of the version that `find_node_location` gives. -/
def newVersionFits (s : Store) (xid : Xid) (cache : LocationCache) (nodeId : Int64) (newLabelIds : List Int32)
    (newPropBytes : Bytes) : Bool :=
  match findNodeLocation cache s.nodes nodeId with
  | .ok (some (blk, _, slot)) =>
    (s.nodes[blk]?).all (fun page => page.fits (buildNodeItemBytes xid nodeId slot newLabelIds newPropBytes).len)
  | _ => true

/-- An update within the limits on labels and properties has room for the new version on the page of the old one. -/
def GraphOp.UpdateFits (s : Store) : GraphOp → Prop
  | .updateNode xid cache nodeId newLabelIds newPropBytes =>
    newLabelIds.length ≤ maxLabelsPerNode → newPropBytes.length ≤ propInlineMax →
      newVersionFits s xid cache nodeId newLabelIds newPropBytes = true
  | _ => True

instance (s : Store) : DecidablePred (GraphOp.UpdateFits s)
  | .updateNode xid cache nodeId newLabelIds newPropBytes =>
    inferInstanceAs (Decidable (newLabelIds.length ≤ maxLabelsPerNode → newPropBytes.length ≤ propInlineMax →
      newVersionFits s xid cache nodeId newLabelIds newPropBytes = true))
  | .insertNode .. | .insertEdge .. | .deleteNode .. | .deleteEdge .. => .isTrue trivial

/-- The count of line pointers on the page `insert_node` picks for a record. -/
def pickedOffset (s : Store) (labelIds : List Int32) (propBytes : Bytes) : Nat :=
  match findOrExtendPage s.nodes (insertSize labelIds propBytes) with
  | .ok (rel, blk) => (rel[blk]?).elim 0 Page.maxOffset
  | .error _ => 0

/-- The labels and the inline properties of a record stay within the limits of the code. -/
def WithinLimits (labelIds : List Int32) (propBytes : Bytes) : Prop :=
  labelIds.length ≤ maxLabelsPerNode ∧ propBytes.length ≤ propInlineMax

/-- Everything a call of the graph store can do: nothing but add blank pages; write the first version of a node, in the slot
numbered by the items before it; mark a node's unmarked version and write the next one, on the same page if it fits there; only
mark it; put an edge at the head of the chains of both endpoints; mark an undeleted edge. -/
inductive GraphOp.Effect (s : Store) : GraphOp → Store → Prop where
  | grown {op : GraphOp} {t : Store} : Grows s.nodes t.nodes → t.edges = s.edges → Effect s op t
  | inserted {xid : Xid} {nodeId : Int64} {labelIds : List Int32} {propBytes inl : Bytes} {rel : Relation}
      {blk ovfBlk : Nat} {page : Page} {t : Store} :
      Grows s.nodes rel → rel[blk]? = some page → page.IsNodePage → page.maxOffset % 65536 = page.maxOffset →
      pickedOffset s labelIds propBytes = page.maxOffset → WithinLimits labelIds inl → ovfBlk < maxBlocks →
      (ovfBlk = 0 ∨ ovfBlk < rel.length) →
      t.nodes = pushAt rel blk (newVersion xid nodeId page.maxOffset labelIds inl ovfBlk blk (page.maxOffset + 1)) →
      t.edges = s.edges → Effect s (.insertNode xid nodeId labelIds propBytes) t
  | updated {xid : Xid} {cache : LocationCache} {nodeId : Int64} {labelIds : List Int32} {propBytes : Bytes} {rel : Relation}
      {blk off slot blk' : Nat} {page' : Page} {t : Store} :
      Located s.nodes nodeId blk off slot → Grows (setXmaxAt s.nodes blk off xid) rel → rel[blk']? = some page' →
      page'.IsNodePage → (newVersionFits s xid cache nodeId labelIds propBytes = true → blk' = blk) →
      WithinLimits labelIds propBytes →
      t.nodes = pushAt rel blk' (newVersion xid nodeId slot labelIds propBytes 0 blk' (page'.maxOffset + 1)) →
      t.edges = s.edges → Effect s (.updateNode xid cache nodeId labelIds propBytes) t
  | marked {op : GraphOp} {nodeId : Int64} {blk off slot : Nat} {t : Store} :
      Located s.nodes nodeId blk off slot → t.nodes = setXmaxAt s.nodes blk off op.xid → t.edges = s.edges → Effect s op t
  | linked {xid : Xid} {cache : LocationCache} {edgeId : Int64} {relTypeId : Int32} {src tgt : Int64} {propBytes : Bytes}
      {sb sOff sa tb tOff ta : Nat} {srcAdj tgtAdj : NodeAdjHeader} {loc : Nat × Nat} {t : Store} :
      propBytes.length ≤ propInlineMax → Located s.nodes src sb sOff sa → Located s.nodes tgt tb tOff ta →
      headerAt s.nodes (sb, sa) = some srcAdj → headerAt s.nodes (tb, ta) = some tgtAdj →
      t.nodes = pushHeads s.nodes sb sa tb ta srcAdj tgtAdj loc → EdgePages t.edges →
      edgeItems t.edges = edgeItems s.edges ++ [newEdge xid edgeId relTypeId src tgt srcAdj tgtAdj propBytes loc] →
      Effect s (.insertEdge xid cache edgeId relTypeId src tgt propBytes) t
  | edgeMarked {xid : Xid} {edgeId : Int64} {e : EdgeItem} {t : Store} :
      e ∈ edgeItems s.edges → e.edgeId = edgeId → e.undeleted = true → t.nodes = s.nodes →
      t.edges = setXmaxAt s.edges e.loc.1 e.loc.2 xid → Effect s (.deleteEdge xid edgeId) t

/-- Both relations are made of well-formed pages. -/
structure WellFormed (s : Store) : Prop where
  nodePages : NodePages s.nodes
  edgePages : EdgePages s.edges

theorem wellFormed_empty : WellFormed Store.empty where
  nodePages := by intro p hp; simp [Store.empty] at hp
  edgePages := ⟨by intro p hp; simp [Store.empty] at hp, by simp [Store.empty]⟩

/-- The next state of the machine is the store the call leaves. -/
theorem GraphOp.step_eq {pg : PgSys} {s t : Store} {op : GraphOp} (h : op.step pg s = some t) : t = (op.call pg s).1 := by
  simp only [GraphOp.step] at h
  split at h
  · cases h
  · next he =>
    rw [he]
    exact (Option.some.inj h).symm

/-- A call that returns has a next state. -/
theorem GraphOp.step_of_ok {pg : PgSys} {s : Store} {op : GraphOp} {b : Bool} (h : (op.call pg s).2 = .ok b) :
    op.step pg s = some (op.call pg s).1 := by
  simp only [GraphOp.step]
  split
  · next he =>
    rw [he] at h
    cases h
  · next he => rw [he]

/-- The locked step of an update at a version. -/
theorem updateNodeAt_effect (pg : PgSys) (xid : Xid) {cache : LocationCache} {s : Store} {nodeId : Int64}
    {labelIds : List Int32} {propBytes : Bytes} {blk off slot : Nat} (hn : NodePages s.nodes)
    (hl : labelIds.length ≤ maxLabelsPerNode) (hb : propBytes.length ≤ propInlineMax)
    (hfind : findNodeLocation cache s.nodes nodeId = .ok (some (blk, off, slot))) (hloc : Located s.nodes nodeId blk off slot) :
    GraphOp.Effect s (.updateNode xid cache nodeId labelIds propBytes)
      (updateNodeAt pg xid s nodeId labelIds propBytes blk off slot).1 := by
  obtain ⟨v, hv, -⟩ := id hloc
  obtain ⟨page, hp, hpv⟩ := versionAt_eq_some.mp hv
  dsimp only at hp
  have hfits : newVersionFits s xid cache nodeId labelIds propBytes =
      page.fits (42 + labelIds.length * 4 + propBytes.length) := by
    simp [newVersionFits, hfind, hp, buildNodeItemBytes]
  have hr := updateNodeAt_result pg xid nodeId slot hn hl hb hp hpv
  generalize updateNodeAt pg xid s nodeId labelIds propBytes blk off slot = out at hr ⊢
  cases hr with
  | stayed _ =>
    have hp' : (setXmaxAt s.nodes blk off xid)[blk]? = some (page.modifyItem off (Item.mapHdr (·.setXmax xid))) := by
      rw [getElem?_setXmaxAt, if_pos rfl, hp, Option.map_some]
    exact .updated hloc (Grows.refl _) hp' ((hn.isNodePage_of_versionAt hp hpv).modifyItem _ _) (fun _ => rfl)
      ⟨hl, hb⟩ (by rw [Page.maxOffset_modifyItem]) rfl
  | moved hf _ hg hp' hnp =>
    exact .updated hloc hg hp' hnp (fun h => by rw [hfits, hf] at h; cases h) ⟨hl, hb⟩ rfl rfl
  | failed _ _ _ => exact .marked hloc rfl rfl

/-- The inversion lemma: what the next state of the machine can be. -/
theorem GraphOp.effect {pg : PgSys} {s t : Store} {op : GraphOp} (h : WellFormed s) (ht : op.step pg s = some t) :
    op.Effect s t := by
  rw [GraphOp.step_eq ht]
  cases op with
  | insertNode xid nodeId labelIds propBytes =>
    simp only [GraphOp.call]
    have hr := insertNode_result pg xid nodeId labelIds propBytes h.nodePages
    generalize PgEddy.insertNode pg xid s nodeId labelIds propBytes = out at hr ⊢
    cases hr with
    | failed hg _ => exact .grown hg rfl
    | inserted hl hpick hg hp hnp hfit hs =>
      exact .inserted (hg.trans hs.grows) (hs.grows.getElem? hp) hnp (hnp.maxOffset_lt hfit)
        (by simp only [pickedOffset, hpick, hp, Option.elim_some]) ⟨hl, hs.length_le⟩ hs.ovfBlk_lt.1 hs.ovfBlk_lt.2 rfl rfl
  | updateNode xid cache nodeId labelIds propBytes =>
    rcases updateNode_cases pg xid cache nodeId labelIds propBytes h.nodePages with
      ⟨r, hr, -⟩ | ⟨blk, off, slot, hl, hb, hfind, hloc, hr⟩
    · simp only [GraphOp.call, hr]
      exact .grown (Grows.refl _) rfl
    · simp only [GraphOp.call, hr]
      exact updateNodeAt_effect pg xid h.nodePages hl hb hfind hloc
  | deleteNode xid cache nodeId =>
    rcases deleteNodeById_cases xid cache nodeId h.nodePages with ⟨r, hr, -⟩ | ⟨blk, off, slot, hloc, hr⟩
    · simp only [GraphOp.call, hr]
      exact .grown (Grows.refl _) rfl
    · simp only [GraphOp.call, hr]
      exact .marked hloc rfl rfl
  | insertEdge xid cache edgeId relTypeId src tgt propBytes =>
    rcases insertEdge_cases pg xid cache edgeId relTypeId src tgt propBytes h.nodePages with
      ⟨e, he, -⟩ | ⟨sb, sOff, sa, tb, tOff, ta, srcAdj, tgtAdj, hb, hs, ht, hhs, hht, he⟩
    · simp only [GraphOp.call, he]
      exact .grown (Grows.refl _) rfl
    · simp only [GraphOp.call, he]
      have hr := linkEdge_result pg xid edgeId relTypeId src tgt sb sa tb ta srcAdj tgtAdj h.edgePages hb
      generalize linkEdge pg xid s edgeId relTypeId src tgt propBytes sb sa tb ta srcAdj tgtAdj = out at hr ⊢
      cases hr with
      | failed _ => exact .grown (Grows.refl _) rfl
      | linked _ hnodes hedges hitems => exact .linked hb hs ht hhs hht hnodes hedges hitems
  | deleteEdge xid edgeId =>
    rcases deleteEdge_cases xid s edgeId with ⟨hr, -⟩ | ⟨e, he, hid, hu, hr⟩
    · simp only [GraphOp.call, hr]
      exact .grown (Grows.refl _) rfl
    · simp only [GraphOp.call, hr]
      exact .edgeMarked he hid hu rfl rfl

/-! ## What every call keeps -/

@[simp] theorem versionAt_pushHeads {nodes : Relation} (sb sa tb ta : Nat) (srcAdj tgtAdj : NodeAdjHeader)
    (loc' loc : Nat × Nat) : versionAt (pushHeads nodes sb sa tb ta srcAdj tgtAdj loc') loc = versionAt nodes loc := by
  rw [pushHeads, versionAt_writeAdjHeaderAt, versionAt_writeAdjHeaderAt]

theorem WellFormed.effect {s t : Store} {op : GraphOp} (h : WellFormed s) (he : op.Effect s t) : WellFormed t := by
  cases he with
  | grown hg hedges => exact ⟨hg.nodePages h.nodePages, hedges ▸ h.edgePages⟩
  | inserted hg hp hnp _ _ _ _ _ hnodes hedges =>
    exact ⟨hnodes ▸ (hg.nodePages h.nodePages).pushAt hp hnp, hedges ▸ h.edgePages⟩
  | updated hloc hg hp hnp _ _ hnodes hedges =>
    obtain ⟨v, hv, -⟩ := hloc
    exact ⟨hnodes ▸ (hg.nodePages (h.nodePages.setXmaxAt hv)).pushAt hp hnp, hedges ▸ h.edgePages⟩
  | marked hloc hnodes hedges =>
    obtain ⟨v, hv, -⟩ := hloc
    exact ⟨hnodes ▸ h.nodePages.setXmaxAt hv, hedges ▸ h.edgePages⟩
  | linked _ _ _ _ _ hnodes hedges _ =>
    exact ⟨hnodes ▸ (h.nodePages.writeAdjHeaderAt _ _ _).writeAdjHeaderAt _ _ _, hedges⟩
  | edgeMarked _ _ _ hnodes hedges => exact ⟨hnodes ▸ h.nodePages, hedges ▸ h.edgePages.setXmaxAt _ _ _⟩

/-- With fresh ids no node has two unmarked versions. -/
theorem UniqueUnmarked.effect {s t : Store} {op : GraphOp} (h : UniqueUnmarked s.nodes) (hw : WellFormed s)
    (hf : op.FreshNode s) (he : op.Effect s t) : UniqueUnmarked t.nodes := by
  cases he with
  | grown hg _ => exact h.grows hg
  | inserted hg hp _ _ _ _ _ _ hnodes _ =>
    rw [hnodes]
    refine (h.grows hg).pushAt hp (length_newVersion ..) fun loc w hw' _ => ?_
    rw [nodeId_newVersion]
    exact hf (loc, w) ((mem_versions hw.nodePages).mpr (hg.versionAt loc ▸ hw'))
  | updated hloc hg hp _ _ _ hnodes _ =>
    obtain ⟨v, hv, -⟩ := id hloc
    rw [hnodes]
    refine ((h.setXmaxAt _ hv).grows hg).pushAt hp (length_newVersion ..) fun loc w hw' hwu => ?_
    rw [nodeId_newVersion]
    exact h.none_after_mark hloc _ (hg.versionAt loc ▸ hw') hwu
  | marked hloc hnodes _ =>
    obtain ⟨v, hv, -⟩ := hloc
    exact hnodes ▸ h.setXmaxAt _ hv
  | linked _ _ _ _ _ hnodes _ _ => exact h.congr fun loc => by rw [hnodes, versionAt_pushHeads]
  | edgeMarked _ _ _ hnodes _ => exact hnodes ▸ h

/-- What holds of every version holds after a call, when a deleter does not change it and it holds of the new version, which is
of a new node or of one that has a version. -/
theorem GraphOp.Effect.versions {s t : Store} {op : GraphOp} (he : op.Effect s t) {P : NodeVersion → Prop}
    (h : ∀ loc v, versionAt s.nodes loc = some v → P v) (hmark : ∀ v xid, P v → P (v.setXmax xid))
    (hnew : ∀ nodeId slot labelIds inl ovfBlk blk off,
      ((∃ labelIds propBytes, op = .insertNode op.xid nodeId labelIds propBytes) ∨
        ∃ loc v, versionAt s.nodes loc = some v ∧ v.nodeId = nodeId) →
      P (newVersion op.xid nodeId slot labelIds inl ovfBlk blk off)) :
    ∀ loc v, versionAt t.nodes loc = some v → P v := by
  have hmarked : ∀ {blk off : Nat} {nodeId : Int64} {slot : Nat}, Located s.nodes nodeId blk off slot →
      ∀ loc v, versionAt (setXmaxAt s.nodes blk off op.xid) loc = some v → P v := by
    rintro blk off nodeId slot ⟨w, hw, -⟩ loc v hv
    rw [versionAt_setXmaxAt hw] at hv
    split at hv
    · cases hv
      exact hmark w _ (h _ w hw)
    · exact h loc v hv
  have hpushed : ∀ {rel : Relation} {blk : Nat} {page : Page} {w : NodeVersion}, rel[blk]? = some page →
      nodeFixedDataSize ≤ w.data.length → P w → (∀ loc v, versionAt rel loc = some v → P v) →
      ∀ loc v, versionAt (pushAt rel blk w) loc = some v → P v := by
    intro rel blk page w hp hl hw hrel loc v hv
    rw [versionAt_pushAt hp hl] at hv
    split at hv
    · cases hv
      exact hw
    · exact hrel loc v hv
  intro loc v hv
  cases he with
  | grown hg _ => exact h loc v (hg.versionAt loc ▸ hv)
  | inserted hg hp _ _ _ _ _ _ hnodes _ =>
    rw [hnodes] at hv
    exact hpushed hp (length_newVersion ..) (hnew _ _ _ _ _ _ _ (Or.inl ⟨_, _, rfl⟩))
      (fun loc v hv => h loc v (hg.versionAt loc ▸ hv)) loc v hv
  | updated hloc hg hp _ _ _ hnodes _ =>
    obtain ⟨w, hw, -, hid, -⟩ := id hloc
    rw [hnodes] at hv
    exact hpushed hp (length_newVersion ..) (hnew _ _ _ _ _ _ _ (Or.inr ⟨_, w, hw, hid⟩))
      (fun loc v hv => hmarked hloc loc v (hg.versionAt loc ▸ hv)) loc v hv
  | marked hloc hnodes _ => exact hmarked hloc loc v (hnodes ▸ hv)
  | linked _ _ _ _ _ hnodes _ _ =>
    rw [hnodes, versionAt_pushHeads] at hv
    exact h loc v hv
  | edgeMarked _ _ _ hnodes _ => exact h loc v (hnodes ▸ hv)

/-- The node relation only grows. -/
theorem GraphOp.Effect.length_le {s t : Store} {op : GraphOp} (he : op.Effect s t) : s.nodes.length ≤ t.nodes.length := by
  cases he with
  | grown hg _ => exact hg.length_le
  | inserted hg _ _ _ _ _ _ _ hnodes _ =>
    rw [hnodes, length_pushAt]
    exact hg.length_le
  | updated _ hg _ _ _ _ hnodes _ =>
    rw [hnodes, length_pushAt]
    exact Nat.le_trans (Nat.le_of_eq length_setXmaxAt.symm) hg.length_le
  | marked _ hnodes _ => exact Nat.le_of_eq (by rw [hnodes, length_setXmaxAt])
  | linked _ _ _ _ _ hnodes _ _ =>
    exact Nat.le_of_eq (by rw [hnodes, pushHeads, length_writeAdjHeaderAt, length_writeAdjHeaderAt])
  | edgeMarked _ _ _ hnodes _ => exact Nat.le_of_eq (by rw [hnodes])

/-- A well-formed store in which no node has two unmarked versions. -/
structure Sound (s : Store) : Prop extends WellFormed s where
  unique : UniqueUnmarked s.nodes

theorem uniqueUnmarked_empty : UniqueUnmarked Store.empty.nodes := by
  intro loc loc' v v' hv
  simp [versionAt, Store.empty] at hv

theorem sound_empty : Sound Store.empty := ⟨wellFormed_empty, uniqueUnmarked_empty⟩

theorem Sound.step {pg : PgSys} {s t : Store} {op : GraphOp} (h : Sound s) (hf : op.Fresh s) (ht : op.step pg s = some t) :
    Sound t :=
  have he := GraphOp.effect h.toWellFormed ht
  ⟨h.toWellFormed.effect he, h.unique.effect h.toWellFormed hf.node he⟩

end PgEddy
