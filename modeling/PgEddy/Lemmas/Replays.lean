import PgEddy.Wal
import PgEddy.Lemmas.Vacuums

/-!
# A node page and its replay

The page recovery builds follows the original step by step: it has as many line pointers and as much room, so that every record
finds its place. What can differ is the adjacency slot of a record, since `insert_node` logs the item before it sets the slot.
-/

namespace PgEddy

open ByteBuffer

/-! ## Replaying -/

theorem replay_append (pg : PgSys) (nodes edges : Relation) (ws ws' : List WalRecord) :
    replay pg nodes edges (ws ++ ws') = (replay pg nodes edges ws).bind (fun r => replay pg r.1 r.2 ws') := by
  induction ws generalizing nodes edges with
  | nil => rfl
  | cons w ws ih =>
    simp only [List.cons_append, replay]
    cases rmgrRedo pg nodes edges w with
    | error e => rfl
    | ok r => exact ih r.1 r.2

/-- One more record is redone on what the others left. -/
theorem replay_snoc {pg : PgSys} {nodes edges nodes' edges' nodes'' edges'' : Relation} {ws : List WalRecord} {w : WalRecord}
    (h : replay pg nodes edges ws = .ok (nodes', edges')) (hw : rmgrRedo pg nodes' edges' w = .ok (nodes'', edges'')) :
    replay pg nodes edges (ws ++ [w]) = .ok (nodes'', edges'') := by
  rw [replay_append, h]
  simp only [Except.bind, replay, hw]
  rfl

theorem modifyBlock_head (p : Page) (rest : Relation) (f : Page → Page) : modifyBlock (p :: rest) 0 f = f p :: rest := rfl

/-- The insert record of an item that fits is redone at the end of its page, `r` being the page after the initialisation. -/
theorem redoInsert_append (pg : PgSys) {init q r : Page} (before after : Relation) {item : Item}
    (hr : (if q.pdUpper = 0 then init else q) = r) (hu : r.AllUsed) (hf : r.fits item.len = true) :
    redoInsert pg init (before ++ q :: after) before.length (r.maxOffset + 1) item = .ok (before ++ r.push item :: after) := by
  have hq : (before ++ q :: after)[before.length]? = some q := by
    rw [List.getElem?_append_right (Nat.le_refl _), Nat.sub_self, List.getElem?_cons_zero]
  have hadd := pg.add_at_end r item hu (Page.fits_iff.mp hf)
  simp only [redoInsert, hq, hr, Page.maxOffset, hadd]
  rw [List.append_cons before q after, modifyBlock_append_left _ _ (by simp), modifyBlock_concat, ← List.append_cons]

/-- The insert record of an item that fits is redone at the end of the first page. -/
theorem redoInsert_head (pg : PgSys) {q : Page} (rest' : Relation) {item : Item} (hu : q.AllUsed) (hf : q.fits item.len = true) :
    redoInsert pg initNodePage (q :: rest') 0 (q.maxOffset + 1) item = .ok (q.push item :: rest') := by
  have hfit := Page.fits_iff.mp hf
  have h0 : ¬q.pdUpper = 0 := by
    simp only [Page.pdLower, pageHeaderSize, itemIdSize] at hfit
    omega
  exact redoInsert_append pg [] rest' (if_neg h0) hu hf

/-- A block behind the first one is restored. -/
theorem restoreBlock_succ (q : Page) (rest' : Relation) (blkno : Nat) (image : Page) :
    restoreBlock (q :: rest') (blkno + 1) image = q :: restoreBlock rest' blkno image := by
  have hn : blkno + 1 + 1 - (rest'.length + 1) = blkno + 1 - rest'.length := by omega
  simp only [restoreBlock, List.length_cons, List.cons_append, List.set_cons_succ, hn]

/-- The first block is restored. -/
theorem restoreBlock_head (q : Page) (rest' : Relation) (image : Page) :
    restoreBlock (q :: rest') 0 image = image :: rest' := by
  have hn : 0 + 1 - (rest'.length + 1) = 0 := by omega
  simp only [restoreBlock, List.length_cons, hn, List.replicate_zero, List.append_nil, List.set_cons_zero]

/-! ## The fields readers use -/

/-- The fields of an item that readers use. -/
structure ItemFields where
  lpFlags : LpFlags
  xmin : Xid
  xmax : Xid
  xmaxInvalid : Bool
  nodeId : Int64
  adjSlotIdx : Nat
  labelIds : List Int32
  inlineLen : Nat
  overflowBlkno : Nat
  propBytes : Bytes
  deriving DecidableEq, Repr

/-- The fields of a record. -/
def tupleFields (flags : LpFlags) (hdr : HeapTupleHeader) (data : Bytes) : ItemFields where
  lpFlags := flags
  xmin := hdr.xmin
  xmax := hdr.xmax
  xmaxInvalid := hdr.xmaxInvalid
  nodeId := nodeIdOf data
  adjSlotIdx := adjSlotOf data
  labelIds := labelIdsOf data (labelCountOf data)
  inlineLen := propLenOf data
  overflowBlkno := overflowOf data
  propBytes := slice data (offLabelIds + labelCountOf data * 4) (propLenOf data)

/-- The fields of an item; none for one without a tuple header. -/
def ItemId.fields (i : ItemId) : Option ItemFields :=
  match i.item with
  | .raw _ => none
  | .tuple hdr data => some (tupleFields i.lpFlags hdr data)

theorem fields_tuple (flags : LpFlags) (hdr : HeapTupleHeader) (data : Bytes) :
    ItemId.fields ⟨flags, .tuple hdr data⟩ = some (tupleFields flags hdr data) := rfl

theorem fields_mapHdr_setXmax (flags : LpFlags) (it : Item) (xmax : Xid) :
    (ItemId.fields ⟨flags, it.mapHdr (·.setXmax xmax)⟩) =
      (ItemId.fields ⟨flags, it⟩).map (fun f => { f with xmax := xmax, xmaxInvalid := false }) := by
  cases it <;> rfl

/-- The fields of one item under two line pointers. -/
theorem fields_congr {i j : ItemId} (h : i.item = j.item) :
    i.fields = j.fields.map (fun f => { f with lpFlags := i.lpFlags }) := by
  simp only [ItemId.fields, h]
  cases j.item <;> rfl

theorem Page.fields_lt {p : Page} {off : Nat} {f : ItemFields} (h : (p.itemId off).fields = some f) :
    1 ≤ off ∧ off ≤ p.maxOffset := by
  by_contra hlt
  have hz : p.itemId off = ItemId.zero := by
    by_cases h0 : off = 0
    · rw [h0, Page.itemId_zero]
    · exact Page.itemId_of_lt (by omega)
  rw [hz] at h
  cases h

/-- A node page with the blank blocks behind it, and what recovery has built of it. `lost` tells that some record of the
replayed page has another adjacency slot. -/
structure Recovered (lost : Bool) (p : Page) (rest : Relation) (q : Page) (rest' : Relation) : Prop where
  nodePage : p.IsNodePage
  blank : ∀ r ∈ rest, r.Blank
  shorter : rest'.length ≤ rest.length
  used : q.AllUsed
  upper : q.pdUpper = p.pdUpper
  count : q.maxOffset = p.maxOffset
  overflow : ∀ off f, (p.itemId off).fields = some f → f.overflowBlkno ≠ 0 →
    ∃ image, rest[f.overflowBlkno - 1]? = some image ∧ rest'[f.overflowBlkno - 1]? = some image
  same : lost = false → ∀ off, (q.itemId off).fields = (p.itemId off).fields
  differ : lost = true → ∃ off f g, (p.itemId off).fields = some f ∧ (q.itemId off).fields = some g ∧
    f.adjSlotIdx ≠ g.adjSlotIdx

namespace Recovered

variable {lost : Bool} {p q : Page} {rest rest' : Relation}

theorem start : Recovered false initNodePage [] initNodePage [] where
  nodePage := isNodePage_init
  blank := by simp
  shorter := Nat.le_refl _
  used := isNodePage_init.used
  upper := rfl
  count := rfl
  overflow := by
    intro off f hf
    obtain ⟨h1, h2⟩ := Page.fields_lt hf
    simp only [Page.maxOffset, initNodePage, pageInit, List.length_nil] at h2
    omega
  same := fun _ _ => rfl
  differ := by simp

theorem fits (h : Recovered lost p rest q rest') (n : Nat) : q.fits n = p.fits n := by
  have hc := h.count
  simp only [Page.maxOffset] at hc
  rw [Bool.eq_iff_iff, Page.fits_iff, Page.fits_iff, Page.pdLower, Page.pdLower, h.upper, hc]

/-- Blocks that hold no version come behind the page. -/
theorem grow (h : Recovered lost p rest q rest') {ext : Relation} (he : ∀ r ∈ ext, r.Blank) :
    Recovered lost p (rest ++ ext) q rest' :=
  { h with
    blank := fun r hr => (List.mem_append.mp hr).elim (h.blank r) (he r)
    shorter := by
      rw [List.length_append]
      exact Nat.le_trans h.shorter (Nat.le_add_right _ _)
    overflow := fun off f hf hb => by
      obtain ⟨image, h1, h2⟩ := h.overflow off f hf hb
      exact ⟨image, by rw [List.getElem?_append_left (List.getElem?_eq_some_iff.mp h1).1, h1], h2⟩ }

/-- A deleter is set, and the delete record redone. -/
theorem setXmax (h : Recovered lost p rest q rest') {off : Nat} {v : NodeVersion} (hv : p.versionAt off = some v) (xid : Xid) :
    ∃ q', redoDelete (q :: rest') 0 off xid = q' :: rest' ∧
      Recovered lost (p.modifyItem off (Item.mapHdr (·.setXmax xid))) rest q' rest' := by
  obtain ⟨h1, h2⟩ := Page.offset_of_versionAt hv
  have hp : ∀ o, ((p.modifyItem off (Item.mapHdr (·.setXmax xid))).itemId o).fields =
      if o = off then ((p.itemId off).fields).map (fun f => { f with xmax := xid, xmaxInvalid := false })
      else (p.itemId o).fields := by
    intro o
    rw [Page.itemId_modifyItem h1 h2]
    split
    · exact fields_mapHdr_setXmax _ _ _
    · rfl
  have hq : ∀ o, ((q.modifyItem off (Item.mapHdr (·.setXmax xid))).itemId o).fields =
      if o = off then ((q.itemId off).fields).map (fun f => { f with xmax := xid, xmaxInvalid := false })
      else (q.itemId o).fields := by
    intro o
    rw [Page.itemId_modifyItem h1 (h.count ▸ h2)]
    split
    · exact fields_mapHdr_setXmax _ _ _
    · rfl
  have hnormal : (p.itemId off).lpFlags = .normal := by rw [Page.itemId_of_versionAt hv]
  have hover : ∀ o f, ((p.modifyItem off (Item.mapHdr (·.setXmax xid))).itemId o).fields = some f → f.overflowBlkno ≠ 0 →
      ∃ image, rest[f.overflowBlkno - 1]? = some image ∧ rest'[f.overflowBlkno - 1]? = some image := by
    intro o f hf hb
    rw [hp] at hf
    split at hf
    · obtain ⟨g, hg, rfl⟩ := Option.map_eq_some_iff.mp hf
      exact h.overflow off g hg hb
    · exact h.overflow o f hf hb
  by_cases hn : (q.itemId off).lpFlags = .normal
  · refine ⟨q.modifyItem off (Item.mapHdr (·.setXmax xid)), by simp only [redoDelete, modifyBlock_head, hn, if_true],
      { h with
        nodePage := h.nodePage.modifyItem _ _, used := h.used.modifyItem _ _, upper := h.upper,
        count := by rw [Page.maxOffset_modifyItem, Page.maxOffset_modifyItem, h.count],
        overflow := hover, same := fun hl o => ?_, differ := fun hl => ?_ }⟩
    · rw [hp, hq, h.same hl, h.same hl]
    · obtain ⟨o, f, g, hf, hg, hne⟩ := h.differ hl
      by_cases ho : o = off
      · subst ho
        exact ⟨o, { f with xmax := xid, xmaxInvalid := false }, { g with xmax := xid, xmaxInvalid := false },
          by rw [hp, if_pos rfl, hf]; rfl, by rw [hq, if_pos rfl, hg]; rfl, hne⟩
      · exact ⟨o, f, g, by rw [hp, if_neg ho, hf], by rw [hq, if_neg ho, hg], hne⟩
  · refine ⟨q, by simp only [redoDelete, modifyBlock_head, hn, if_false],
      { h with
        nodePage := h.nodePage.modifyItem _ _, upper := h.upper,
        count := by rw [Page.maxOffset_modifyItem, h.count],
        overflow := hover, same := fun hl o => ?_, differ := fun hl => ?_ }⟩
    · -- the replayed line pointer has the flags of the original
      have hsame := h.same hl off
      obtain ⟨hdr, data, hi⟩ : ∃ hdr data, (p.itemId off).item = .tuple hdr data := by
        rw [Page.itemId_of_versionAt hv]
        exact ⟨v.hdr, v.data, rfl⟩
      have hfl : (q.itemId off).lpFlags = (p.itemId off).lpFlags := by
        simp only [ItemId.fields, hi] at hsame
        cases hqi : (q.itemId off).item with
        | raw bytes =>
          rw [hqi] at hsame
          cases hsame
        | tuple hdr' data' =>
          rw [hqi] at hsame
          exact congrArg ItemFields.lpFlags (Option.some.inj hsame)
      exact absurd (hfl.trans hnormal) hn
    · obtain ⟨o, f, g, hf, hg, hne⟩ := h.differ hl
      by_cases ho : o = off
      · subst ho
        exact ⟨o, { f with xmax := xid, xmaxInvalid := false }, g, by rw [hp, if_pos rfl, hf]; rfl, hg, hne⟩
      · exact ⟨o, f, g, by rw [hp, if_neg ho, hf], hg, hne⟩

/-- An item is placed on the page, and the logged one on the replayed page. -/
theorem push (h : Recovered lost p rest q rest') {it it' : Item} {loses : Bool} (hlen : it'.len = it.len)
    (hsame : loses = false → ItemId.fields ⟨.normal, it'⟩ = ItemId.fields ⟨.normal, it⟩)
    (hdiffer : loses = true → ∃ f g, ItemId.fields ⟨.normal, it⟩ = some f ∧ ItemId.fields ⟨.normal, it'⟩ = some g ∧
      f.adjSlotIdx ≠ g.adjSlotIdx)
    (hover : ∀ f, ItemId.fields ⟨.normal, it⟩ = some f → f.overflowBlkno ≠ 0 →
      ∃ image, rest[f.overflowBlkno - 1]? = some image ∧ rest'[f.overflowBlkno - 1]? = some image) :
    Recovered (loses || lost) (p.push it) rest (q.push it') rest' :=
  { h with
    nodePage := h.nodePage.push _
    used := h.used.push _
    upper := by simp only [Page.push, h.upper, hlen]
    count := by rw [Page.maxOffset_push, Page.maxOffset_push, h.count]
    overflow := fun o f hf hb => by
      rw [Page.itemId_push] at hf
      split at hf
      · exact hover f hf hb
      · exact h.overflow o f hf hb
    same := fun hl o => by
      obtain ⟨hl, hl'⟩ := Bool.or_eq_false_iff.mp hl
      rw [Page.itemId_push, Page.itemId_push, h.count]
      split
      · exact hsame hl
      · exact h.same hl' o
    differ := fun hl => by
      rcases Bool.or_eq_true_iff.mp hl with hl | hl
      · obtain ⟨f, g, hf, hg, hne⟩ := hdiffer hl
        exact ⟨p.maxOffset + 1, f, g, by rw [Page.itemId_push, if_pos rfl, hf],
          by rw [Page.itemId_push, h.count, if_pos rfl, hg], hne⟩
      · obtain ⟨o, f, g, hf, hg, hne⟩ := h.differ hl
        have ho := (Page.fields_lt hf).2
        exact ⟨o, f, g, by rw [Page.itemId_push, if_neg (by omega), hf],
          by rw [Page.itemId_push, h.count, if_neg (by omega), hg], hne⟩ }

/-- An overflow block is added, and restored from its image. -/
theorem restore (h : Recovered lost p rest q rest') {image : Page} (hi : image.IsOverflowBlock) :
    (restoreBlock rest' rest.length image)[rest.length]? = some image ∧
      Recovered lost p (rest ++ [image]) q (restoreBlock rest' rest.length image) := by
  have hshort := h.shorter
  simp only [restoreBlock]
  refine ⟨List.getElem?_set_self (by simp only [List.length_append, List.length_replicate]; omega), ?_⟩
  refine { h.grow (fun r hr => List.mem_singleton.mp hr ▸ Or.inr hi) with shorter := ?_, overflow := fun off f hf hb => ?_ }
  · simp only [List.length_set, List.length_append, List.length_replicate, List.length_singleton]
    omega
  · obtain ⟨im, h1, h2⟩ := h.overflow off f hf hb
    have hlt := (List.getElem?_eq_some_iff.mp h1).1
    have hlt' := (List.getElem?_eq_some_iff.mp h2).1
    exact ⟨im, by rw [List.getElem?_append_left hlt, h1],
      by rw [List.getElem?_set_ne (by omega), List.getElem?_append_left hlt', h2]⟩

/-- The page is compacted, and restored from its image. -/
theorem compact (h : Recovered lost p rest q rest') {hz : VacuumHorizon} {p' : Page} (hv : p.Vacuumed hz p') :
    Recovered false p' rest p' rest' where
  nodePage := hv.nodePage h.nodePage
  blank := h.blank
  shorter := h.shorter
  used := (hv.nodePage h.nodePage).used
  upper := rfl
  count := rfl
  overflow := by
    intro off f hf hb
    rw [fields_congr (hv.item off)] at hf
    obtain ⟨g, hg, rfl⟩ := Option.map_eq_some_iff.mp hf
    exact h.overflow off g hg hb
  same := fun _ _ => rfl
  differ := by simp

end Recovered

end PgEddy
