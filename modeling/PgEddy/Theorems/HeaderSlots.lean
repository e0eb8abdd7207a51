import PgEddy.Lemmas.GraphSteps

/-!
# Adjacency slots and the special area

`insert_node` numbers the slot of a new node by the items already on the page. The only bound on their count is the room for
the items, and 110 records without labels and properties have room on a page that holds 100 headers.
-/

namespace PgEddy

open Machine

/-- Every node record names one of the headers of its page: the slot is below `MAX_NODE_SLOTS_PER_PAGE`, and the 24 bytes that
`read_adj_header` and `write_adj_header` touch lie inside the special area. -/
def HeaderSlotsInside (s : Store) : Prop :=
  ∀ lv ∈ versions s.nodes, lv.2.slot < maxNodeSlotsPerPage ∧
    pdNodeSpecialOffset + lv.2.slot * adjHeaderBytes + adjHeaderBytes ≤ blcksz

/-- The page `insert_node` picks has an item less than there are headers. -/
def GraphOp.PicksHeaderSlot (s : Store) : GraphOp → Prop
  | .insertNode _ _ labelIds propBytes => pickedOffset s labelIds propBytes < maxNodeSlotsPerPage
  | _ => True

instance (s : Store) : Decidable (HeaderSlotsInside s) := inferInstanceAs (Decidable (∀ lv ∈ versions s.nodes, _))

instance (s : Store) : DecidablePred (GraphOp.PicksHeaderSlot s)
  | .insertNode _ _ labelIds propBytes => inferInstanceAs (Decidable (pickedOffset s labelIds propBytes < _))
  | .updateNode .. | .insertEdge .. | .deleteNode .. | .deleteEdge .. => .isTrue trivial

instance (pg : PgSys) (s : Store) : DecidablePred (GraphOp.Accepted pg s) := fun op =>
  match h : (op.call pg s).2 with
  | .ok b => .isTrue ⟨b, h⟩
  | .error _ => .isFalse (fun ⟨b, hb⟩ => by rw [h] at hb; cases hb)

namespace SlotsAux

/-- The same condition on the map of versions. -/
def SlotsBelow (rel : Relation) : Prop := ∀ loc v, versionAt rel loc = some v → v.slot < maxNodeSlotsPerPage

/-- A slot below the count of headers is inside the special area. -/
theorem headerSlotsInside_iff {s : Store} (hn : NodePages s.nodes) : HeaderSlotsInside s ↔ SlotsBelow s.nodes := by
  constructor
  · intro h loc v hv
    exact (h (loc, v) ((mem_versions hn).mpr hv)).1
  · rintro h ⟨loc, v⟩ hv
    have hlt := h loc v ((mem_versions hn).mp hv)
    refine ⟨hlt, ?_⟩
    simp only [maxNodeSlotsPerPage, pdNodeSpecialOffset, pdNodeSpecialSize, adjHeaderBytes, blcksz] at hlt ⊢
    omega

theorem SlotsBelow.grows {rel rel' : Relation} (h : SlotsBelow rel) (hg : Grows rel rel') : SlotsBelow rel' :=
  fun loc v hv => h loc v (hg.versionAt loc ▸ hv)

/-- After one more version the slots are below the bound exactly if the new one is. -/
theorem SlotsBelow.pushAt_iff {rel : Relation} (h : SlotsBelow rel) {blk : Nat} {page : Page} {v : NodeVersion}
    (hp : rel[blk]? = some page) (hl : nodeFixedDataSize ≤ v.data.length) :
    SlotsBelow (pushAt rel blk v) ↔ v.slot < maxNodeSlotsPerPage := by
  constructor
  · intro h'
    exact h' (blk, page.maxOffset + 1) v (by rw [versionAt_pushAt hp hl, if_pos rfl])
  · intro hlt loc w hw
    rw [versionAt_pushAt hp hl] at hw
    split at hw
    · cases hw; exact hlt
    · exact h loc w hw

theorem SlotsBelow.setXmaxAt {rel : Relation} (h : SlotsBelow rel) {blk off : Nat} {v : NodeVersion} (xid : Xid)
    (hv : versionAt rel (blk, off) = some v) : SlotsBelow (setXmaxAt rel blk off xid) := by
  intro loc w hw
  rw [versionAt_setXmaxAt hv] at hw
  split at hw
  · cases hw
    exact h (blk, off) v hv
  · exact h loc w hw

/-- A call that writes no first version writes no new slot. -/
theorem SlotsBelow.effect {s t : Store} {op : GraphOp} (h : SlotsBelow s.nodes) (he : op.Effect s t)
    (hins : ∀ xid nodeId labelIds propBytes, op ≠ .insertNode xid nodeId labelIds propBytes) : SlotsBelow t.nodes := by
  cases he with
  | grown hg _ => exact h.grows hg
  | inserted => exact absurd rfl (hins _ _ _ _)
  | updated hloc hg hp _ _ _ hnodes _ =>
    obtain ⟨v, hv, -, -, hslot⟩ := hloc
    rw [hnodes, ((h.setXmaxAt _ hv).grows hg).pushAt_iff hp (length_newVersion ..), slot_newVersion, ← hslot,
      Nat.mod_eq_of_lt v.slot_lt]
    exact h _ v hv
  | marked hloc hnodes _ =>
    obtain ⟨v, hv, -⟩ := hloc
    exact hnodes ▸ h.setXmaxAt _ hv
  | linked _ _ _ _ _ hnodes _ _ => exact fun loc w hw => h loc w (by rwa [hnodes, versionAt_pushHeads] at hw)
  | edgeMarked _ _ _ hnodes _ => exact hnodes ▸ h

/-- One accepted call keeps the slots inside exactly if it picks a page with a header left. -/
theorem slots_step {pg : PgSys} {s t : Store} {op : GraphOp} (hw : WellFormed s) (hs : HeaderSlotsInside s)
    (hacc : op.Accepted pg s) (ht : op.step pg s = some t) : HeaderSlotsInside t ↔ op.PicksHeaderSlot s := by
  have heff := GraphOp.effect hw ht
  rw [headerSlotsInside_iff hw.nodePages] at hs
  rw [headerSlotsInside_iff (hw.effect heff).nodePages]
  cases op with
  | insertNode xid nodeId labelIds propBytes =>
    obtain ⟨b, hb⟩ := hacc
    rw [GraphOp.step_eq ht]
    simp only [GraphOp.call] at hb ⊢
    have hr := insertNode_result pg xid nodeId labelIds propBytes hw.nodePages
    generalize insertNode pg xid s nodeId labelIds propBytes = out at hr hb ⊢
    cases hr with
    | failed _ _ => cases hb
    | inserted _ hpick hg hp hnp hfit hst =>
      rw [((hs.grows hg).grows hst.grows).pushAt_iff (hst.grows.getElem? hp) (length_newVersion ..), slot_newVersion,
        hnp.maxOffset_lt hfit]
      simp only [GraphOp.PicksHeaderSlot, pickedOffset, hpick, hp, Option.elim_some]
  | updateNode => exact iff_of_true (hs.effect heff (by simp)) trivial
  | deleteNode => exact iff_of_true (hs.effect heff (by simp)) trivial
  | insertEdge => exact iff_of_true (hs.effect heff (by simp)) trivial
  | deleteEdge => exact iff_of_true (hs.effect heff (by simp)) trivial

end SlotsAux

/-- 101 nodes without labels and properties: all on the first page. -/
def bareNodes : List GraphOp := (List.range 101).map (fun i => .insertNode 3 (Int64.ofNat (i + 1)) [] [])

end PgEddy
