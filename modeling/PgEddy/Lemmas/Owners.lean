import PgEddy.Lemmas.Linked

/-!
# Who owns a header

With fresh ids and updates that stay on their page, all versions of a node lie on one block and store one slot, and no other
node stores that slot there. So a header belongs to one node, whose chains start in it, for as long as a version of the node is
on the page, marked or not; and a header that no version stores is empty.
-/

namespace PgEddy

open LinkedChain

/-- A version of a node, marked or not: where it is and its adjacency slot. -/
def HasVersion (nodes : Relation) (n : Int64) (b o a : Nat) : Prop :=
  ∃ v, versionAt nodes (b, o) = some v ∧ v.nodeId = n ∧ v.slot = a

theorem Located.hasVersion {nodes : Relation} {n : Int64} {b o a : Nat} (h : Located nodes n b o a) :
    HasVersion nodes n b o a := by
  obtain ⟨v, hv, -, hid, hs⟩ := h
  exact ⟨v, hv, hid, hs⟩

/-- Headers and nodes of a node relation are paired. -/
structure OwnedSlots (nodes : Relation) : Prop where
  slotLt : ∀ n b o a, HasVersion nodes n b o a → a < o
  owner : ∀ n n' b o a b' o' a', HasVersion nodes n b o a → HasVersion nodes n' b' o' a' → (n = n' ↔ b = b' ∧ a = a')
  free : ∀ b a hdr, headerAt nodes (b, a) = some hdr → (∀ n o, ¬HasVersion nodes n b o a) →
    ∀ isOutChain, link (hdr.head isOutChain) = none

/-- The invariant of a store whose updates stay on their page. -/
structure Owned (s : Store) : Prop extends Linked s where
  owned : OwnedSlots s.nodes
  endpoints : ∀ e ∈ edgeItems s.edges, ∀ isOutChain, ∃ b o a, HasVersion s.nodes (e.endpoint isOutChain) b o a
  decodes : ∀ e ∈ edgeItems s.edges, e.record.isSome

theorem owned_empty : Owned Store.empty where
  toSound := sound_empty
  slots := by rintro n n' b o o' a ⟨v, hv, -⟩; simp [versionAt, Store.empty] at hv
  threads := by rintro n b o a hdr ⟨v, hv, -⟩; simp [versionAt, Store.empty] at hv
  owned := {
    slotLt := by rintro n b o a ⟨v, hv, -⟩; simp [versionAt, Store.empty] at hv
    owner := by rintro n n' b o a b' o' a' ⟨v, hv, -⟩; simp [versionAt, Store.empty] at hv
    free := by intro b a hdr hh; simp [headerAt, Store.empty] at hh }
  endpoints := by intro e he; cases he
  decodes := by intro e he; cases he

/-! ## The node relation -/

section Slots

variable {nodes nodes' : Relation}

/-- A change that keeps the versions' nodes and slots, and writes only headers that are owned or empty. -/
theorem OwnedSlots.congr (h : OwnedSlots nodes)
    (hv : ∀ n b o a, HasVersion nodes' n b o a ↔ HasVersion nodes n b o a)
    (hh : ∀ b a hdr, headerAt nodes' (b, a) = some hdr → headerAt nodes (b, a) = some hdr ∨ hdr = NodeAdjHeader.zero ∨
      ∃ n o, HasVersion nodes n b o a) : OwnedSlots nodes' where
  slotLt := fun n b o a hn => h.slotLt n b o a ((hv ..).mp hn)
  owner := fun n n' b o a b' o' a' hn hn' => h.owner n n' b o a b' o' a' ((hv ..).mp hn) ((hv ..).mp hn')
  free := by
    intro b a hdr hhdr hnone
    rcases hh b a hdr hhdr with hold | rfl | ⟨n, o, hn⟩
    · exact h.free b a hdr hold fun n o hn => hnone n o ((hv ..).mpr hn)
    · intro isOutChain
      cases isOutChain <;> rfl
    · exact absurd ((hv ..).mpr hn) (hnone n o)

theorem hasVersion_congr (he : ∀ loc, versionAt nodes' loc = versionAt nodes loc) {n : Int64} {b o a : Nat} :
    HasVersion nodes' n b o a ↔ HasVersion nodes n b o a := by
  simp only [HasVersion, he]

theorem hasVersion_setXmaxAt {blk off : Nat} {v : NodeVersion} {xid : Xid} (hv : versionAt nodes (blk, off) = some v)
    {n : Int64} {b o a : Nat} : HasVersion (setXmaxAt nodes blk off xid) n b o a ↔ HasVersion nodes n b o a := by
  simp only [HasVersion, versionAt_setXmaxAt hv]
  split
  · next he => simp [he, hv]
  · rfl

theorem hasVersion_pushAt {blk : Nat} {page : Page} {v : NodeVersion} (hp : nodes[blk]? = some page)
    (hl : nodeFixedDataSize ≤ v.data.length) {n : Int64} {b o a : Nat} :
    HasVersion (pushAt nodes blk v) n b o a ↔
      (b = blk ∧ o = page.maxOffset + 1 ∧ v.nodeId = n ∧ v.slot = a) ∨ HasVersion nodes n b o a := by
  have hnone : versionAt nodes (blk, page.maxOffset + 1) = none := by
    cases hw : versionAt nodes (blk, page.maxOffset + 1) with
    | none => rfl
    | some w =>
      obtain ⟨q, hq, hqw⟩ := versionAt_eq_some.mp hw
      cases hp.symm.trans hq
      have := (Page.offset_of_versionAt hqw).2
      dsimp only at this
      omega
  simp only [HasVersion, versionAt_pushAt hp hl]
  by_cases he : (b, o) = (blk, page.maxOffset + 1)
  · obtain ⟨rfl, rfl⟩ := Prod.mk.inj he
    simp [hnone]
  · have hne : ¬(b = blk ∧ o = page.maxOffset + 1) := fun ⟨h1, h2⟩ => he (by rw [h1, h2])
    simp only [he, if_false]
    constructor
    · exact Or.inr
    · rintro (⟨h1, h2, -⟩ | h)
      · exact absurd ⟨h1, h2⟩ hne
      · exact h

/-- A version is written whose slot and node go together on its block, and with no other slot or node. -/
theorem OwnedSlots.pushAt (h : OwnedSlots nodes) {blk : Nat} {page : Page} {v : NodeVersion} (hp : nodes[blk]? = some page)
    (hl : nodeFixedDataSize ≤ v.data.length) (hslot : v.slot ≤ page.maxOffset)
    (howner : ∀ n b o a, HasVersion nodes n b o a → (n = v.nodeId ↔ b = blk ∧ a = v.slot)) :
    OwnedSlots (pushAt nodes blk v) where
  slotLt := by
    intro n b o a hn
    rcases (hasVersion_pushAt hp hl).mp hn with ⟨-, rfl, -, rfl⟩ | hn
    · omega
    · exact h.slotLt n b o a hn
  owner := by
    intro n n' b o a b' o' a' hn hn'
    rcases (hasVersion_pushAt hp hl).mp hn with ⟨rfl, -, rfl, rfl⟩ | hold <;>
      rcases (hasVersion_pushAt hp hl).mp hn' with ⟨rfl, -, rfl, rfl⟩ | hold'
    · simp
    · rw [eq_comm, howner n' b' o' a' hold', eq_comm, eq_comm (a := a')]
    · exact howner n b o a hold
    · exact h.owner n n' b o a b' o' a' hold hold'
  free := by
    intro b a hdr hh hnone
    rw [headerAt_pushAt] at hh
    exact h.free b a hdr hh fun n o hn => hnone n o ((hasVersion_pushAt hp hl).mpr (Or.inr hn))

end Slots

/-! ## The steps -/

section Steps

variable {s t : Store}

/-- The location of a node after a step that writes a version is the new version's, or an old one. -/
theorem located_pushAt {nodes : Relation} {blk : Nat} {page : Page} {v : NodeVersion} (hp : nodes[blk]? = some page)
    (hl : nodeFixedDataSize ≤ v.data.length) {n : Int64} {b o a : Nat} (h : Located (pushAt nodes blk v) n b o a) :
    (b = blk ∧ v.nodeId = n ∧ v.slot = a) ∨ Located nodes n b o a := by
  obtain ⟨w, hw, hu, hid, hs⟩ := h
  rw [versionAt_pushAt hp hl] at hw
  split at hw
  · next he =>
    cases hw
    exact Or.inl ⟨(Prod.mk.inj he).1, hid, hs⟩
  · exact Or.inr ⟨w, hw, hu, hid, hs⟩

theorem located_of_setXmaxAt {nodes : Relation} {blk off : Nat} {v : NodeVersion} {xid : Xid}
    (hv : versionAt nodes (blk, off) = some v) {n : Int64} {b o a : Nat}
    (h : Located (setXmaxAt nodes blk off xid) n b o a) : Located nodes n b o a := by
  obtain ⟨w, hw, hu, hid, hs⟩ := h
  exact ⟨w, (versionAt_setXmaxAt_unmarked hv hw hu).2, hu, hid, hs⟩

/-- A step of the node store: it keeps the versions there are, the edges, and the pairing of slots and nodes, and every located
node was located on the block with the slot before, or has no edges and an empty header. -/
theorem Owned.nodeStep (h : Owned s) (hsound : Sound t) (hslots : OwnedSlots t.nodes) (hedges : t.edges = s.edges)
    (hkeep : ∀ n b o a, HasVersion s.nodes n b o a → HasVersion t.nodes n b o a)
    (hloc : ∀ n b o a hdr, Located t.nodes n b o a → headerAt t.nodes (b, a) = some hdr →
      (∃ o', Located s.nodes n b o' a ∧ headerAt s.nodes (b, a) = some hdr) ∨
        (∀ b o a, ¬HasVersion s.nodes n b o a) ∧ ∀ isOutChain, link (hdr.head isOutChain) = none) : Owned t where
  toSound := hsound
  slots := fun n n' b o o' a hn hn' =>
    (hslots.owner n n' b o a b o' a hn.hasVersion hn'.hasVersion).mpr ⟨rfl, rfl⟩
  threads := by
    intro n b o a hdr hl hh
    rw [hedges]
    rcases hloc n b o a hdr hl hh with ⟨o', hl', hh'⟩ | ⟨hnew, hfree⟩
    · exact h.threads n b o' a hdr hl' hh'
    · intro isOutChain
      have hnil : thread s.edges isOutChain n = [] := by
        rw [List.eq_nil_iff_forall_not_mem]
        intro e he
        obtain ⟨hmem, hend⟩ := mem_thread.mp he
        obtain ⟨b, o, a, hv⟩ := h.endpoints e hmem isOutChain
        exact hnew b o a (hend ▸ hv)
      rw [hfree, hnil]
      exact Chain.nil
  owned := hslots
  endpoints := by
    intro e he isOutChain
    obtain ⟨b, o, a, hv⟩ := h.endpoints e (hedges ▸ he) isOutChain
    exact ⟨b, o, a, hkeep _ _ _ _ hv⟩
  decodes := hedges ▸ h.decodes

theorem Owned.grown (h : Owned s) (hsound : Sound t) (hg : Grows s.nodes t.nodes) (hedges : t.edges = s.edges) : Owned t := by
  have hvers : ∀ n b o a, HasVersion t.nodes n b o a ↔ HasVersion s.nodes n b o a := fun _ _ _ _ =>
    hasVersion_congr hg.versionAt
  refine h.nodeStep hsound (h.owned.congr hvers fun b a hdr hh => ?_) hedges (fun n b o a => (hvers n b o a).mpr)
    fun n b o a hdr hl hh => ?_
  · exact (hg.headerAt hh).imp_right fun hz => Or.inl hz.2
  · have hl' := (Located.congr hg.versionAt).mp hl
    obtain ⟨v, hv, -⟩ := id hl'
    obtain ⟨p, hp, -⟩ := versionAt_eq_some.mp hv
    rcases hg.headerAt hh with hold | ⟨hb, -⟩
    · exact Or.inl ⟨o, hl', hold⟩
    · have := (List.getElem?_eq_some_iff.mp hp).1
      dsimp only at this hb
      omega

theorem Owned.marked (h : Owned s) (hsound : Sound t) {nodeId : Int64} {blk off slot : Nat} {xid : Xid}
    (hloc : Located s.nodes nodeId blk off slot) (hnodes : t.nodes = setXmaxAt s.nodes blk off xid)
    (hedges : t.edges = s.edges) : Owned t := by
  obtain ⟨v, hv, -⟩ := hloc
  have hvers : ∀ n b o a, HasVersion t.nodes n b o a ↔ HasVersion s.nodes n b o a := fun _ _ _ _ =>
    hnodes ▸ hasVersion_setXmaxAt hv
  have hhead : ∀ loc, headerAt t.nodes loc = headerAt s.nodes loc := fun loc => by rw [hnodes, headerAt_setXmaxAt]
  refine h.nodeStep hsound (h.owned.congr hvers fun b a hdr hh => Or.inl (hhead _ ▸ hh)) hedges
    (fun n b o a => (hvers n b o a).mpr) fun n b o a hdr hl hh => Or.inl ⟨o, ?_, hhead _ ▸ hh⟩
  exact located_of_setXmaxAt hv (hnodes ▸ hl)

/-- The first version of a node takes a slot that no version on the page has, whose header is empty. -/
theorem Owned.inserted (h : Owned s) (hsound : Sound t) {rel : Relation} {blk : Nat} {page : Page} {v : NodeVersion}
    (hfresh : ∀ b o a, ¬HasVersion s.nodes v.nodeId b o a) (hg : Grows s.nodes rel) (hp : rel[blk]? = some page)
    (hl : nodeFixedDataSize ≤ v.data.length) (hslot : v.slot = page.maxOffset) (hnodes : t.nodes = pushAt rel blk v)
    (hedges : t.edges = s.edges) : Owned t := by
  have hvers : ∀ n b o a, HasVersion rel n b o a ↔ HasVersion s.nodes n b o a := fun _ _ _ _ =>
    hasVersion_congr hg.versionAt
  have hrel : OwnedSlots rel := h.owned.congr hvers fun b a hdr hh => (hg.headerAt hh).imp_right fun hz => Or.inl hz.2
  -- the slots on the page are those of items before the new one
  have hpage : ∀ n o a, HasVersion rel n blk o a → a < page.maxOffset := by
    intro n o a hn
    have hlt := hrel.slotLt n blk o a hn
    obtain ⟨w, hw, -⟩ := hn
    obtain ⟨q, hq, hqw⟩ := versionAt_eq_some.mp hw
    cases hp.symm.trans hq
    exact Nat.lt_of_lt_of_le hlt (Page.offset_of_versionAt hqw).2
  have hgrown := h.grown (t := { t with nodes := rel })
    ⟨⟨hg.nodePages h.nodePages, hedges ▸ h.edgePages⟩, h.unique.grows hg⟩ hg hedges
  refine hgrown.nodeStep hsound (hnodes ▸ hrel.pushAt hp hl (Nat.le_of_eq hslot) fun n b o a hn => ?_) rfl
    (fun n b o a hn => hnodes ▸ (hasVersion_pushAt hp hl).mpr (Or.inr hn)) fun n b o a hdr hloc hh => ?_
  · refine iff_of_false (fun he => hfresh b o a (he ▸ (hvers n b o a).mp hn)) fun ⟨hb, ha⟩ => ?_
    subst hb
    have := hpage n o a hn
    omega
  · rw [hnodes, headerAt_pushAt] at hh
    rcases located_pushAt hp hl (hnodes ▸ hloc) with ⟨rfl, rfl, rfl⟩ | hold
    · refine Or.inr ⟨fun b o a hn => hfresh b o a ((hvers ..).mp hn), hrel.free b v.slot hdr hh fun n o hn => ?_⟩
      have := hpage n o _ hn
      omega
    · exact Or.inl ⟨o, hold, hh⟩

/-- A new version of a node on the page of the old one takes over the slot. -/
theorem Owned.updated (h : Owned s) (hsound : Sound t) {rel : Relation} {blk off : Nat} {page : Page} {v : NodeVersion}
    {xid : Xid} (hloc : Located s.nodes v.nodeId blk off v.slot) (hg : Grows (setXmaxAt s.nodes blk off xid) rel)
    (hp : rel[blk]? = some page) (hl : nodeFixedDataSize ≤ v.data.length) (hnodes : t.nodes = pushAt rel blk v)
    (hedges : t.edges = s.edges) : Owned t := by
  obtain ⟨w, hw, -⟩ := id hloc
  have hmarked : Owned { t with nodes := setXmaxAt s.nodes blk off xid } :=
    h.marked ⟨⟨h.nodePages.setXmaxAt hw, hedges ▸ h.edgePages⟩, h.unique.setXmaxAt xid hw⟩ hloc rfl hedges
  have hgrown : Owned { t with nodes := rel } :=
    hmarked.grown ⟨⟨hg.nodePages hmarked.nodePages, hmarked.edgePages⟩, hmarked.unique.grows hg⟩ hg rfl
  have hrel := hgrown.owned
  have hvers : ∀ n b o a, HasVersion rel n b o a ↔ HasVersion s.nodes n b o a := fun _ _ _ _ =>
    (hasVersion_congr hg.versionAt).trans (hasVersion_setXmaxAt hw)
  have hold : HasVersion rel v.nodeId blk off v.slot := (hvers ..).mpr hloc.hasVersion
  have hlt : v.slot < page.maxOffset := by
    have hlt := hrel.slotLt _ _ _ _ hold
    obtain ⟨u, hu, -⟩ := id hold
    obtain ⟨q, hq, hqu⟩ := versionAt_eq_some.mp hu
    cases hp.symm.trans hq
    exact Nat.lt_of_lt_of_le hlt (Page.offset_of_versionAt hqu).2
  have hhead : ∀ {n b o a hdr}, Located s.nodes n b o a → headerAt t.nodes (b, a) = some hdr →
      headerAt s.nodes (b, a) = some hdr := by
    intro n b o a hdr hl' hh
    rw [hnodes, headerAt_pushAt] at hh
    obtain ⟨u, hu, -⟩ := hl'
    obtain ⟨q, hq, -⟩ := versionAt_eq_some.mp hu
    have hb := (List.getElem?_eq_some_iff.mp hq).1
    rcases hg.headerAt hh with hh | ⟨hout, -⟩
    · rwa [headerAt_setXmaxAt] at hh
    · rw [length_setXmaxAt] at hout
      dsimp only at hb hout
      omega
  refine h.nodeStep hsound (hnodes ▸ hrel.pushAt hp hl (Nat.le_of_lt hlt) fun n b o a hn => ?_) hedges
    (fun n b o a hn => hnodes ▸ (hasVersion_pushAt hp hl).mpr (Or.inr ((hvers ..).mpr hn))) fun n b o a hdr hloc' hh => ?_
  · exact hrel.owner n v.nodeId b o a blk off v.slot hn hold
  · rcases located_pushAt hp hl (hnodes ▸ hloc') with ⟨rfl, rfl, rfl⟩ | hother
    · exact Or.inl ⟨off, hloc, hhead hloc hh⟩
    · have hother' := located_of_setXmaxAt hw ((Located.congr hg.versionAt).mp hother)
      exact Or.inl ⟨o, hother', hhead hother' hh⟩

/-- A new edge touches only the headers of its endpoints. -/
theorem Owned.linked (h : Owned s) (hsound : Sound t) {xid : Xid} {edgeId : Int64} {relTypeId : Int32} {src tgt : Int64}
    {propBytes : Bytes} {sb sOff sa tb tOff ta : Nat} {srcAdj tgtAdj : NodeAdjHeader} {loc : Nat × Nat}
    (hb : propBytes.length ≤ propInlineMax) (hsl : Located s.nodes src sb sOff sa) (htl : Located s.nodes tgt tb tOff ta)
    (hs : headerAt s.nodes (sb, sa) = some srcAdj) (ht : headerAt s.nodes (tb, ta) = some tgtAdj)
    (hnodes : t.nodes = pushHeads s.nodes sb sa tb ta srcAdj tgtAdj loc)
    (hitems : edgeItems t.edges = edgeItems s.edges ++ [newEdge xid edgeId relTypeId src tgt srcAdj tgtAdj propBytes loc]) :
    Owned t := by
  have hvers : ∀ n b o a, HasVersion t.nodes n b o a ↔ HasVersion s.nodes n b o a := fun _ _ _ _ =>
    hasVersion_congr fun l => by rw [hnodes, versionAt_pushHeads]
  refine { h.toLinked.linked hsound hsl htl hs ht hnodes hitems with
    owned := h.owned.congr hvers fun b a hdr hh => ?_, endpoints := fun e he => ?_, decodes := fun e he => ?_ }
  · rw [hnodes, headerAt_pushHeads hs ht] at hh
    split at hh
    · next he =>
      obtain ⟨rfl, rfl⟩ := Prod.mk.inj he
      exact Or.inr (Or.inr ⟨tgt, tOff, htl.hasVersion⟩)
    · split at hh
      · next he =>
        obtain ⟨rfl, rfl⟩ := Prod.mk.inj he
        exact Or.inr (Or.inr ⟨src, sOff, hsl.hasVersion⟩)
      · exact Or.inl hh
  · rw [hitems] at he
    rcases List.mem_append.mp he with he | he
    · intro isOutChain
      obtain ⟨b, o, a, hv⟩ := h.endpoints e he isOutChain
      exact ⟨b, o, a, (hvers ..).mpr hv⟩
    · cases List.mem_singleton.mp he
      rintro (_ | _)
      · exact ⟨tb, tOff, ta, (hvers ..).mpr (by simpa [EdgeItem.endpoint] using htl.hasVersion)⟩
      · exact ⟨sb, sOff, sa, (hvers ..).mpr (by simpa [EdgeItem.endpoint] using hsl.hasVersion)⟩
  · rw [hitems] at he
    rcases List.mem_append.mp he with he | he
    · exact h.decodes e he
    · cases List.mem_singleton.mp he
      rw [EdgeItem.record, newEdge, decodeEdgeRecord_edgeData _ _ _ _ _ _ _ _ _ _ _ hb]
      rfl

theorem Owned.edgeMarked (h : Owned s) (hsound : Sound t) {e : EdgeItem} {xid : Xid} (he : e ∈ edgeItems s.edges)
    (hnodes : t.nodes = s.nodes) (hedges : t.edges = setXmaxAt s.edges e.loc.1 e.loc.2 xid) : Owned t := by
  have hitems := hedges ▸ edgeItems_setXmaxAt he xid
  refine { h.toLinked.edgeMarked hsound he hnodes hedges with
    owned := hnodes ▸ h.owned, endpoints := fun d hd isOutChain => ?_, decodes := fun d hd => ?_ }
  · rw [hitems] at hd
    obtain ⟨d', hd', rfl⟩ := List.mem_map.mp hd
    rw [(edgeMark_map d').2.1, hnodes]
    exact h.endpoints d' hd' isOutChain
  · rw [hitems] at hd
    obtain ⟨d', hd', rfl⟩ := List.mem_map.mp hd
    have := h.decodes d' hd'
    rw [EdgeItem.record, (edgeMark_map d').1, (edgeMark_map d').2.2]
    exact this

/-- Every call with fresh ids keeps the invariant, if an update stays on its page. -/
theorem Owned.step (h : Owned s) {pg : PgSys} {op : GraphOp} (hf : op.Fresh s) (hfits : op.UpdateFits s)
    (ht : op.step pg s = some t) : Owned t := by
  have hsound := h.toSound.step hf ht
  have he := GraphOp.effect h.toWellFormed ht
  cases he with
  | grown hg hedges => exact h.grown hsound hg hedges
  | @inserted xid nodeId labelIds propBytes inl rel blk ovfBlk page _ hg hp _ hmod _ _ _ _ hnodes hedges =>
    refine h.inserted hsound (fun b o a hn => ?_) hg hp (length_newVersion ..) (by rw [slot_newVersion, hmod]) hnodes hedges
    obtain ⟨v, hv, hid, -⟩ := hn
    rw [nodeId_newVersion] at hid
    exact hf ((b, o), v) ((mem_versions h.nodePages).mpr hv) hid
  | @updated xid cache nodeId labelIds propBytes rel blk off slot blk' page' _ hloc hg hp _ hsame hlim hnodes hedges =>
    obtain rfl := hsame (hfits hlim.1 hlim.2)
    have hslot : slot % 65536 = slot := by
      obtain ⟨v, -, -, -, rfl⟩ := hloc
      exact Nat.mod_eq_of_lt v.slot_lt
    exact h.updated hsound (by rw [nodeId_newVersion, slot_newVersion, hslot]; exact hloc) hg hp (length_newVersion ..)
      hnodes hedges
  | marked hloc hnodes hedges => exact h.marked hsound hloc hnodes hedges
  | linked hb hsl htl hs hth hnodes _ hitems => exact h.linked hsound hb hsl htl hs hth hnodes hitems
  | edgeMarked he _ _ hnodes hedges => exact h.edgeMarked hsound he hnodes hedges

end Steps

end PgEddy
