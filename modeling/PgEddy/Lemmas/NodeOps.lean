import PgEddy.Lemmas.Versions

/-!
# What the calls of the node store do

A relation grows by fresh pages, gets one more item on a page, has a deleter set on an item, has a header written: the effect of
each on the versions and the headers. Then one lemma for each call of the node store, which says in these terms everything the
call can do.
-/

namespace PgEddy

open ByteBuffer

/-! ## Growing -/

/-- A page that holds no version and only zero headers: a fresh node page, or an overflow block. -/
def Page.Blank (p : Page) : Prop := p = initNodePage ∨ p.IsOverflowBlock

/-- The relation with blank pages added at the end. -/
def Grows (rel rel' : Relation) : Prop := ∃ ext, rel' = rel ++ ext ∧ ∀ p ∈ ext, p.Blank

theorem isNodePage_init : initNodePage.IsNodePage where
  used := by intro i hi; simp [initNodePage, pageInit] at hi
  headers := by simp [initNodePage, pageInit]
  upper := by decide

theorem Page.Blank.versionAt_eq_none {p : Page} (h : p.Blank) (off : Nat) : p.versionAt off = none := by
  rcases h with rfl | h
  · cases hv : initNodePage.versionAt off with
    | none => rfl
    | some v =>
      obtain ⟨h1, h2⟩ := Page.offset_of_versionAt hv
      simp only [Page.maxOffset, initNodePage, pageInit, List.length_nil] at h2
      omega
  · exact h.versionAt_eq_none off

theorem Page.Blank.header {p : Page} (h : p.Blank) {slot : Nat} {hdr : NodeAdjHeader} (hr : readAdjHeader p slot = some hdr) :
    hdr = NodeAdjHeader.zero := by
  rcases h with rfl | h
  · simp only [readAdjHeader, initNodePage, pageInit, List.getElem?_replicate] at hr
    split at hr
    · exact (Option.some.inj hr).symm
    · cases hr
  · simp [readAdjHeader, h.headers] at hr

theorem Grows.refl (rel : Relation) : Grows rel rel := ⟨[], (List.append_nil rel).symm, by simp⟩

theorem Grows.trans {rel rel' rel'' : Relation} (h : Grows rel rel') (h' : Grows rel' rel'') : Grows rel rel'' := by
  obtain ⟨e, rfl, he⟩ := h
  obtain ⟨e', rfl, he'⟩ := h'
  refine ⟨e ++ e', List.append_assoc _ _ _, fun p hp => ?_⟩
  rcases List.mem_append.mp hp with hp | hp
  · exact he p hp
  · exact he' p hp

theorem Grows.concat {rel : Relation} {p : Page} (h : p.Blank) : Grows rel (rel ++ [p]) :=
  ⟨[p], rfl, fun _ hq => List.mem_singleton.mp hq ▸ h⟩

theorem Grows.length_le {rel rel' : Relation} (h : Grows rel rel') : rel.length ≤ rel'.length := by
  obtain ⟨e, rfl, -⟩ := h
  simp

theorem Grows.getElem? {rel rel' : Relation} (h : Grows rel rel') {b : Nat} {p : Page} (hp : rel[b]? = some p) :
    rel'[b]? = some p := by
  obtain ⟨e, rfl, -⟩ := h
  rw [List.getElem?_append_left (List.getElem?_eq_some_iff.mp hp).1, hp]

/-- A block of the grown relation is an old one or blank. -/
theorem Grows.cases {rel rel' : Relation} (h : Grows rel rel') {b : Nat} {p : Page} (hp : rel'[b]? = some p) :
    rel[b]? = some p ∨ (rel.length ≤ b ∧ p.Blank) := by
  obtain ⟨e, rfl, he⟩ := h
  by_cases hb : b < rel.length
  · rw [List.getElem?_append_left hb] at hp
    exact Or.inl hp
  · rw [List.getElem?_append_right (by omega)] at hp
    exact Or.inr ⟨by omega, he p (List.mem_of_getElem? hp)⟩

theorem Grows.nodePages {rel rel' : Relation} (h : Grows rel rel') (hn : NodePages rel) : NodePages rel' := by
  obtain ⟨e, rfl, he⟩ := h
  intro p hp
  rcases List.mem_append.mp hp with hp | hp
  · exact hn p hp
  · rcases he p hp with rfl | ho
    · exact Or.inl isNodePage_init
    · exact Or.inr ho

theorem Grows.versionAt {rel rel' : Relation} (h : Grows rel rel') (loc : Nat × Nat) :
    versionAt rel' loc = versionAt rel loc := by
  cases hp : rel'[loc.1]? with
  | none =>
    have hp' : rel[loc.1]? = none := by
      rw [List.getElem?_eq_none_iff] at hp ⊢
      exact Nat.le_trans h.length_le hp
    rw [PgEddy.versionAt, PgEddy.versionAt, hp, hp']
  | some p =>
    rcases h.cases hp with hp' | ⟨hb, hblank⟩
    · rw [PgEddy.versionAt, PgEddy.versionAt, hp, hp']
    · rw [PgEddy.versionAt, PgEddy.versionAt, hp, List.getElem?_eq_none hb, Option.bind_some, hblank.versionAt_eq_none]
      rfl

/-- A header of the grown relation is an old one, or the zero header of a new page. -/
theorem Grows.headerAt {rel rel' : Relation} (h : Grows rel rel') {loc : Nat × Nat} {hdr : NodeAdjHeader}
    (hh : headerAt rel' loc = some hdr) : headerAt rel loc = some hdr ∨ (rel.length ≤ loc.1 ∧ hdr = NodeAdjHeader.zero) := by
  obtain ⟨p, hp, hr⟩ := headerAt_eq_some.mp hh
  rcases h.cases hp with hp' | ⟨hb, hblank⟩
  · exact Or.inl (headerAt_eq_some.mpr ⟨p, hp', hr⟩)
  · exact Or.inr ⟨hb, hblank.header hr⟩

theorem Grows.headerAt_of_some {rel rel' : Relation} (h : Grows rel rel') {loc : Nat × Nat} {hdr : NodeAdjHeader}
    (hh : PgEddy.headerAt rel loc = some hdr) : PgEddy.headerAt rel' loc = some hdr := by
  obtain ⟨p, hp, hr⟩ := headerAt_eq_some.mp hh
  exact headerAt_eq_some.mpr ⟨p, h.getElem? hp, hr⟩

/-! ## A new version on a page -/

/-- The version a call writes: a fresh header that names its own location, and the data portion. -/
def newVersion (xid : Xid) (nodeId : Int64) (slot : Nat) (labelIds : List Int32) (propBytes : Bytes) (overflowBlkno : Nat)
    (blkno off : Nat) : NodeVersion :=
  { hdr := { HeapTupleHeader.fresh xid with ctid := some (blkno, off) },
    data := nodeData nodeId slot labelIds propBytes overflowBlkno }

section NewVersion

variable (xid : Xid) (nodeId : Int64) (slot : Nat) (labelIds : List Int32) (propBytes : Bytes) (overflowBlkno blkno off : Nat)

@[simp] theorem nodeId_newVersion :
    (newVersion xid nodeId slot labelIds propBytes overflowBlkno blkno off).nodeId = nodeId := by
  rw [NodeVersion.nodeId, newVersion, nodeIdOf_nodeData]

@[simp] theorem slot_newVersion :
    (newVersion xid nodeId slot labelIds propBytes overflowBlkno blkno off).slot = slot % 65536 := by
  rw [NodeVersion.slot, newVersion, adjSlotOf_nodeData]

@[simp] theorem unmarked_newVersion :
    (newVersion xid nodeId slot labelIds propBytes overflowBlkno blkno off).unmarked = true := rfl

@[simp] theorem xmin_newVersion :
    (newVersion xid nodeId slot labelIds propBytes overflowBlkno blkno off).hdr.xmin = xid := rfl

theorem length_newVersion :
    nodeFixedDataSize ≤ (newVersion xid nodeId slot labelIds propBytes overflowBlkno blkno off).data.length := by
  simp only [newVersion, length_nodeData, nodeFixedDataSize]
  omega

end NewVersion

/-- The relation with an item placed behind the last one of a block. -/
def pushAt (rel : Relation) (blkno : Nat) (v : NodeVersion) : Relation :=
  modifyBlock rel blkno (fun p => p.push (.tuple v.hdr v.data))

section PushAt

variable {rel : Relation} {blkno : Nat} {page : Page} {v : NodeVersion}

theorem versionAt_pushAt (hp : rel[blkno]? = some page) (hl : nodeFixedDataSize ≤ v.data.length) (loc : Nat × Nat) :
    versionAt (pushAt rel blkno v) loc = if loc = (blkno, page.maxOffset + 1) then some v else versionAt rel loc := by
  obtain ⟨b, o⟩ := loc
  simp only [versionAt, pushAt, getElem?_modifyBlock, Prod.mk.injEq]
  by_cases hb : b = blkno
  · subst hb
    simp only [if_true, hp, Option.map_some, Option.bind_some, Page.versionAt, Page.itemId_push, true_and]
    by_cases ho : o = page.maxOffset + 1
    · simp only [ho, if_true, Nat.not_lt.mpr hl, if_false]
    · simp only [ho, if_false]
  · simp only [hb, if_false, false_and]

theorem headerAt_pushAt (loc : Nat × Nat) : headerAt (pushAt rel blkno v) loc = headerAt rel loc := by
  simp only [headerAt, pushAt, getElem?_modifyBlock]
  split
  · cases rel[loc.1]? <;> rfl
  · rfl

theorem Page.IsNodePage.push {p : Page} (h : p.IsNodePage) (it : Item) : (p.push it).IsNodePage where
  used := h.used.push it
  headers := h.headers
  upper := Nat.le_trans (Nat.sub_le _ _) h.upper

theorem NodePages.pushAt (h : NodePages rel) (hp : rel[blkno]? = some page) (hn : page.IsNodePage) :
    NodePages (pushAt rel blkno v) := by
  intro q hq
  rcases mem_modifyBlock hq with hq | ⟨r, hr, rfl⟩
  · exact h q hq
  · cases hr.symm.trans hp
    exact Or.inl (hn.push _)

@[simp] theorem length_pushAt : (PgEddy.pushAt rel blkno v).length = rel.length := length_modifyBlock _ _ _

end PushAt

/-! ## A deleter set -/

section SetXmaxAt

variable {rel : Relation} {blkno off : Nat} {v : NodeVersion} {xmax : Xid}

theorem Page.itemId_of_versionAt {p : Page} {off : Nat} {v : NodeVersion} (h : p.versionAt off = some v) :
    p.itemId off = ⟨.normal, .tuple v.hdr v.data⟩ := by
  rcases hi : p.itemId off with ⟨flags, ⟨hdr, data⟩ | bytes⟩
  · cases flags <;> simp only [Page.versionAt, hi, reduceCtorEq] at h
    split at h
    · cases h
    · cases h; rfl
  · cases flags <;> simp only [Page.versionAt, hi, reduceCtorEq] at h

theorem versionAt_setXmaxAt (hv : versionAt rel (blkno, off) = some v) (loc : Nat × Nat) :
    versionAt (setXmaxAt rel blkno off xmax) loc = if loc = (blkno, off) then some (v.setXmax xmax) else versionAt rel loc := by
  obtain ⟨page, hp, hpv⟩ := versionAt_eq_some.mp hv
  obtain ⟨b, o⟩ := loc
  dsimp only at hp hpv
  obtain ⟨h1, h2⟩ := Page.offset_of_versionAt hpv
  simp only [versionAt, setXmaxAt, getElem?_modifyBlock, Prod.mk.injEq]
  by_cases hb : b = blkno
  · subst hb
    simp only [if_true, hp, Option.map_some, Option.bind_some, Page.versionAt, Page.itemId_modifyItem h1 h2, true_and]
    by_cases ho : o = off
    · subst ho
      simp only [if_true, Page.itemId_of_versionAt hpv, Item.mapHdr, Nat.not_lt.mpr (Page.length_of_versionAt hpv), if_false]
      rfl
    · simp only [ho, if_false]
  · simp only [hb, if_false, false_and]

theorem headerAt_setXmaxAt (loc : Nat × Nat) : headerAt (setXmaxAt rel blkno off xmax) loc = headerAt rel loc := by
  simp only [headerAt, setXmaxAt, getElem?_modifyBlock]
  split
  · cases rel[loc.1]? <;> rfl
  · rfl

theorem Page.IsNodePage.modifyItem {p : Page} (h : p.IsNodePage) (off : Nat) (f : Item → Item) :
    (p.modifyItem off f).IsNodePage where
  used := h.used.modifyItem off f
  headers := h.headers
  upper := h.upper

theorem NodePages.setXmaxAt (h : NodePages rel) (hv : versionAt rel (blkno, off) = some v) :
    NodePages (setXmaxAt rel blkno off xmax) := by
  obtain ⟨page, hp, hpv⟩ := versionAt_eq_some.mp hv
  intro q hq
  rcases mem_modifyBlock hq with hq | ⟨r, hr, rfl⟩
  · exact h q hq
  · cases hr.symm.trans hp
    exact Or.inl ((h.isNodePage_of_versionAt hr hpv).modifyItem _ _)

@[simp] theorem length_setXmaxAt : (PgEddy.setXmaxAt rel blkno off xmax).length = rel.length := length_modifyBlock _ _ _

/-- Setting a deleter leaves the room on every page as it is. -/
theorem getElem?_setXmaxAt (b : Nat) :
    (PgEddy.setXmaxAt rel blkno off xmax)[b]? =
      if b = blkno then rel[b]?.map (fun p => p.modifyItem off (Item.mapHdr (·.setXmax xmax))) else rel[b]? :=
  getElem?_modifyBlock _ _ _ _

end SetXmaxAt

/-! ## Room for a record -/

theorem modifyBlock_congr {rel : Relation} {blk : Nat} {page : Page} {f g : Page → Page} (hp : rel[blk]? = some page)
    (h : f page = g page) : modifyBlock rel blk f = modifyBlock rel blk g := by
  refine List.ext_getElem? fun b => ?_
  rw [getElem?_modifyBlock, getElem?_modifyBlock]
  split
  · next hb =>
    subst hb
    simp only [hp, Option.map_some, h]
  · rfl

/-- On a page with room the item goes behind the last one, patched. -/
theorem addNodeItem_of_fits (pg : PgSys) {rel : Relation} {blkno : Nat} {page : Page} {item : Item}
    (patch : Nat → Item → Item) (hp : rel[blkno]? = some page) (hu : page.AllUsed) (hf : page.fits item.len = true)
    (hlen : ∀ off, (patch off item).len = item.len) :
    addNodeItem pg rel blkno item patch =
      some (modifyBlock rel blkno (fun p => p.push (patch (page.maxOffset + 1) item)), page.maxOffset + 1) := by
  simp only [addNodeItem, hp, pg.add_fits page item hu (Page.fits_iff.mp hf), Page.modifyItem_push _ _ _ (hlen _)]
  simp only [Option.some.injEq, Prod.mk.injEq, Page.maxOffset, and_true]
  exact modifyBlock_congr hp rfl

theorem findSpace_spec {rel : Relation} {itemSize : Nat} :
    ∀ {n b : Nat}, findSpace rel itemSize n = some b →
      b < n ∧ ∃ page, rel[b]? = some page ∧ isOverflowPage page = false ∧ page.fits itemSize = true
  | n + 1, b, h => by
    rw [findSpace] at h
    split at h
    · cases h
    · next page hp =>
      split at h
      · obtain ⟨hb, hrest⟩ := findSpace_spec h
        exact ⟨Nat.lt_succ_of_lt hb, hrest⟩
      · next ho =>
        split at h
        · next hf =>
          cases h
          exact ⟨Nat.lt_succ_self _, page, hp, Bool.not_eq_true _ ▸ ho, hf⟩
        · cases h

theorem extendRelation_cases (rel : Relation) (page : Page) :
    (rel.length < maxBlocks ∧ extendRelation rel page = .ok (rel ++ [page], rel.length)) ∨
      extendRelation rel page = .error .cannotExtend := by
  simp only [extendRelation]
  split
  · next h => exact Or.inl ⟨h, rfl⟩
  · exact Or.inr rfl

/-- `find_or_extend_page` finds a node page with room, an old one or a fresh one, or cannot extend the relation. -/
theorem findOrExtendPage_cases {rel : Relation} (hn : NodePages rel) {itemSize : Nat} (hs : initNodePage.fits itemSize = true) :
    findOrExtendPage rel itemSize = .error .cannotExtend ∨
      ∃ rel' blk page, findOrExtendPage rel itemSize = .ok (rel', blk) ∧ Grows rel rel' ∧ rel'[blk]? = some page ∧
        page.IsNodePage ∧ page.fits itemSize = true := by
  cases hf : findSpace rel itemSize rel.length with
  | some blk =>
    obtain ⟨-, page, hp, ho, hfit⟩ := findSpace_spec hf
    exact Or.inr ⟨rel, blk, page, by simp only [findOrExtendPage, hf], Grows.refl rel, hp, hn.isNodePage hp ho, hfit⟩
  | none =>
    rcases extendRelation_cases rel initNodePage with ⟨-, he⟩ | he
    · exact Or.inr ⟨rel ++ [initNodePage], rel.length, initNodePage, by simp only [findOrExtendPage, hf, he],
        Grows.concat (Or.inl rfl), List.getElem?_concat_length .., isNodePage_init, hs⟩
    · exact Or.inl (by simp only [findOrExtendPage, hf, he])

/-- A record within the limits of the code fits on a fresh page. -/
theorem initNodePage_fits {n : Nat} (h : n ≤ 682) : initNodePage.fits n = true := by
  have := maxAlign_le (n := n)
  rw [Page.fits_iff, show initNodePage.pdLower = 24 from rfl, show initNodePage.pdUpper = 5792 from rfl, itemIdSize]
  omega

@[simp] theorem len_buildNodeItem (xid : Xid) (nodeId : Int64) (slot : Nat) (labelIds : List Int32) (propBytes : Bytes)
    (ovf : Nat) :
    (buildNodeItemBytesOvf xid nodeId slot labelIds propBytes ovf).len = 42 + labelIds.length * 4 + propBytes.length := by
  rw [buildNodeItemBytesOvf_eq, Item.len, length_nodeData, hdrSize]
  omega

/-! ## Overflow blocks -/

/-- `write_overflow_block` writes nothing, or one overflow block with the properties, or fails on a block it has added. -/
theorem writeOverflow_cases (pg : PgSys) (rel : Relation) (propBytes : Bytes) :
    (propBytes.length ≤ propInlineMax ∧ writeOverflow pg rel propBytes = (rel, .ok none)) ∨
      (∃ image, propInlineMax < propBytes.length ∧ rel.length < maxBlocks ∧ image.IsOverflowBlock ∧
        (image.itemId 1).item = .raw propBytes ∧
        writeOverflow pg rel propBytes = (rel ++ [image], .ok (some (rel.length, image)))) ∨
      (∃ rel' e, Grows rel rel' ∧ e ≠ .outOfPage ∧ writeOverflow pg rel propBytes = (rel', .error e)) := by
  by_cases hi : propBytes.length ≤ propInlineMax
  · exact Or.inl ⟨hi, by simp only [writeOverflow, hi, if_true]⟩
  refine Or.inr ?_
  have hused : (pageInit 0).AllUsed := by intro i h; simp [pageInit] at h
  have hblank : (pageInit 0).IsOverflowBlock := ⟨hused, rfl, by intro i h; simp [pageInit] at h⟩
  rcases extendRelation_cases rel (pageInit 0) with ⟨hlt, he⟩ | he
  · by_cases hfit : (pageInit 0).pdLower + itemIdSize + maxAlign (Item.raw propBytes).len ≤ (pageInit 0).pdUpper
    · have hadd := pg.add_fits (pageInit 0) (.raw propBytes) hused hfit
      refine Or.inl ⟨(pageInit 0).push (.raw propBytes), Nat.lt_of_not_le hi, hlt, ⟨hused.push _, rfl, ?_⟩, rfl, ?_⟩
      · intro i h
        simp only [Page.push, pageInit, List.nil_append, List.mem_singleton] at h
        exact ⟨propBytes, by rw [h]⟩
      · simp only [writeOverflow, hi, if_false, he, hadd, modifyBlock_concat]
    · have hadd := pg.add_full (pageInit 0) (.raw propBytes) hused hfit
      exact Or.inr ⟨rel ++ [pageInit 0], .overflowAddFailed, Grows.concat (Or.inr hblank), by simp,
        by simp only [writeOverflow, hi, if_false, he, hadd]⟩
  · exact Or.inr ⟨rel, .cannotExtend, Grows.refl rel, by simp, by simp only [writeOverflow, hi, if_false, he]⟩

/-! ## Insert -/

/-- How the properties of a new record are stored: inline, or in an overflow block added for them. The parameters are the
relation the record goes to, its inline bytes, the overflow block for the log, and its number. -/
inductive StoredProps (rel : Relation) (propBytes : Bytes) : Relation → Bytes → Option (Nat × Page) → Nat → Prop where
  | inline : propBytes.length ≤ propInlineMax → StoredProps rel propBytes rel propBytes none 0
  | overflow {image : Page} : propInlineMax < propBytes.length → rel.length < maxBlocks → image.IsOverflowBlock →
      (image.itemId 1).item = .raw propBytes →
      StoredProps rel propBytes (rel ++ [image]) [] (some (rel.length, image)) rel.length

/-- The size `insert_node` asks room for. -/
def insertSize (labelIds : List Int32) (propBytes : Bytes) : Nat :=
  42 + labelIds.length * 4 + (if propInlineMax < propBytes.length then 0 else propBytes.length)

/-- What `insert_node` can do: fail, with at most blank pages added, or put one new version on a node page with room, whose slot
is the count of items before it, and log the item it built with slot 0. -/
inductive InsertResult (xid : Xid) (s : Store) (nodeId : Int64) (labelIds : List Int32) (propBytes : Bytes) :
    Outcome (Nat × Nat) → Prop where
  | failed {rel : Relation} {e : PgError} : Grows s.nodes rel → e ≠ .outOfPage →
      InsertResult xid s nodeId labelIds propBytes ({ s with nodes := rel }, .error e)
  | inserted {rel₀ rel : Relation} {blk : Nat} {page : Page} {inl : Bytes} {ovf : Option (Nat × Page)} {ovfBlk : Nat} :
      labelIds.length ≤ maxLabelsPerNode → findOrExtendPage s.nodes (insertSize labelIds propBytes) = .ok (rel₀, blk) →
      Grows s.nodes rel₀ → rel₀[blk]? = some page → page.IsNodePage →
      page.fits (42 + labelIds.length * 4 + inl.length) = true → StoredProps rel₀ propBytes rel inl ovf ovfBlk →
      InsertResult xid s nodeId labelIds propBytes
        ({ s with
            nodes := pushAt rel blk (newVersion xid nodeId page.maxOffset labelIds inl ovfBlk blk (page.maxOffset + 1))
            wal := s.wal ++
              [.nodeInsert blk (page.maxOffset + 1) (buildNodeItemBytesOvf xid nodeId 0 labelIds inl ovfBlk) ovf] },
          .ok (blk, page.maxOffset + 1))

theorem StoredProps.grows {rel rel' : Relation} {propBytes inl : Bytes} {ovf : Option (Nat × Page)} {ovfBlk : Nat}
    (h : StoredProps rel propBytes rel' inl ovf ovfBlk) : Grows rel rel' := by
  cases h with
  | inline _ => exact Grows.refl rel
  | overflow _ _ hi _ => exact Grows.concat (Or.inr hi)

theorem StoredProps.length_le {rel rel' : Relation} {propBytes inl : Bytes} {ovf : Option (Nat × Page)} {ovfBlk : Nat}
    (h : StoredProps rel propBytes rel' inl ovf ovfBlk) : inl.length ≤ propInlineMax := by
  cases h with
  | inline hl => exact hl
  | overflow _ _ _ _ => simp

/-- The number of an overflow block is that of a block of the relation. -/
theorem StoredProps.ovfBlk_lt {rel rel' : Relation} {propBytes inl : Bytes} {ovf : Option (Nat × Page)} {ovfBlk : Nat}
    (h : StoredProps rel propBytes rel' inl ovf ovfBlk) : ovfBlk < maxBlocks ∧ (ovfBlk = 0 ∨ ovfBlk < rel'.length) := by
  cases h with
  | inline _ => exact ⟨by decide, Or.inl rfl⟩
  | overflow _ hlt _ _ => exact ⟨hlt, Or.inr (by simp)⟩

/-- The number of line pointers of a node page with room is far below 65536. -/
theorem Page.IsNodePage.maxOffset_lt {p : Page} (h : p.IsNodePage) {n : Nat} (hf : p.fits n = true) :
    p.maxOffset % 65536 = p.maxOffset := by
  have h1 := Page.fits_iff.mp hf
  have h2 := h.upper
  simp only [Page.pdLower, pageHeaderSize, itemIdSize, blcksz] at h1 h2
  exact Nat.mod_eq_of_lt (by simp only [Page.maxOffset]; omega)

/-- The item `insert_node` leaves on a page is the version with the slot and the location patched in. -/
theorem addNodeItem_insert (pg : PgSys) {rel : Relation} {blk : Nat} {page : Page} (xid : Xid) (nodeId : Int64)
    (labelIds : List Int32) (inl : Bytes) (ovfBlk : Nat) (hp : rel[blk]? = some page) (hn : page.IsNodePage)
    (hf : page.fits (42 + labelIds.length * 4 + inl.length) = true) :
    addNodeItem pg rel blk (buildNodeItemBytesOvf xid nodeId 0 labelIds inl ovfBlk)
        (fun off it => (it.setAdjSlot (off - 1)).setCtid blk off) =
      some (pushAt rel blk (newVersion xid nodeId page.maxOffset labelIds inl ovfBlk blk (page.maxOffset + 1)),
        page.maxOffset + 1) := by
  rw [addNodeItem_of_fits pg _ hp hn.used (by rw [len_buildNodeItem]; exact hf) fun off => by
    rw [patched_item, Item.len, length_nodeData, len_buildNodeItem, hdrSize]; omega]
  simp only [patched_item, Nat.add_sub_cancel, pushAt, newVersion]

/-- The item an update leaves on a page. -/
theorem addNodeItem_update (pg : PgSys) {rel : Relation} {blk : Nat} {page : Page} (xid : Xid) (nodeId : Int64) (slot : Nat)
    (labelIds : List Int32) (propBytes : Bytes) (hp : rel[blk]? = some page) (hu : page.AllUsed)
    (hf : page.fits (42 + labelIds.length * 4 + propBytes.length) = true) :
    addNodeItem pg rel blk (buildNodeItemBytes xid nodeId slot labelIds propBytes) (Item.setCtid blk) =
      some (pushAt rel blk (newVersion xid nodeId slot labelIds propBytes 0 blk (page.maxOffset + 1)),
        page.maxOffset + 1) := by
  rw [buildNodeItemBytes, addNodeItem_of_fits pg _ hp hu (by rw [len_buildNodeItem]; exact hf) fun off => by
    rw [buildNodeItemBytesOvf_eq]; rfl]
  simp only [buildNodeItemBytesOvf_eq, Item.setCtid, Item.mapHdr, pushAt, newVersion]

/-- The item whose size `insert_node` takes. -/
theorem len_insertItem (xid : Xid) (nodeId : Int64) (labelIds : List Int32) (propBytes : Bytes) :
    (buildNodeItemBytesOvf xid nodeId 0 labelIds (if propInlineMax < propBytes.length then [] else propBytes) 0).len =
      insertSize labelIds propBytes := by
  rw [len_buildNodeItem, insertSize]
  split <;> rfl

theorem insertSize_le {labelIds : List Int32} (propBytes : Bytes) (hl : labelIds.length ≤ maxLabelsPerNode) :
    insertSize labelIds propBytes ≤ 682 := by
  simp only [maxLabelsPerNode] at hl
  rw [insertSize]
  split
  · omega
  · next hi =>
    simp only [propInlineMax] at hi
    omega

theorem insertNode_result (pg : PgSys) (xid : Xid) {s : Store} (nodeId : Int64) (labelIds : List Int32) (propBytes : Bytes)
    (hn : NodePages s.nodes) :
    InsertResult xid s nodeId labelIds propBytes (insertNode pg xid s nodeId labelIds propBytes) := by
  by_cases hl : maxLabelsPerNode < labelIds.length
  · simp only [insertNode, hl, if_true]
    exact .failed (Grows.refl _) (by simp)
  simp only [insertNode, hl, if_false, len_insertItem]
  rcases findOrExtendPage_cases hn (initNodePage_fits (insertSize_le propBytes (Nat.not_lt.mp hl))) with he | ⟨rel₀, blk, page, he, hg, hp, hnp, hfit⟩
  · simp only [he]
    exact .failed (Grows.refl _) (by simp)
  simp only [he]
  rcases writeOverflow_cases pg rel₀ propBytes with ⟨hi, hw⟩ | ⟨image, hi, hlt, himg, hraw, hw⟩ | ⟨rel', e, hg', hne, hw⟩
  · have hfit' : page.fits (42 + labelIds.length * 4 + propBytes.length) = true := by
      rwa [insertSize, if_neg (Nat.not_lt.mpr hi)] at hfit
    simp only [hw, addNodeItem_insert pg xid nodeId labelIds propBytes 0 hp hnp hfit']
    exact .inserted (Nat.not_lt.mp hl) he hg hp hnp hfit' (.inline hi)
  · have hfit' : page.fits (42 + labelIds.length * 4 + ([] : Bytes).length) = true := by
      rwa [insertSize, if_pos hi] at hfit
    have hp' : (rel₀ ++ [image])[blk]? = some page := (Grows.concat (Or.inr himg)).getElem? hp
    simp only [hw, addNodeItem_insert pg xid nodeId labelIds [] rel₀.length hp' hnp hfit']
    exact .inserted (Nat.not_lt.mp hl) he hg hp hnp hfit' (.overflow hi hlt himg hraw)
  · simp only [hw]
    exact .failed (hg.trans hg') hne

/-! ## Update and delete -/

/-- What the locked step of `update_node` can do at a location with a version: the new version goes on the same page, or, when
it does not fit there, the old one is marked and the new one goes on another page or the call fails. -/
inductive UpdateResult (xid : Xid) (s : Store) (nodeId : Int64) (labelIds : List Int32) (propBytes : Bytes)
    (blk off slot : Nat) (page : Page) : Outcome Bool → Prop where
  | stayed : page.fits (42 + labelIds.length * 4 + propBytes.length) = true →
      UpdateResult xid s nodeId labelIds propBytes blk off slot page
        ({ s with
            nodes := pushAt (setXmaxAt s.nodes blk off xid) blk
              (newVersion xid nodeId slot labelIds propBytes 0 blk (page.maxOffset + 1))
            wal := s.wal ++ [.nodeDelete blk off xid] ++
              [.nodeInsert blk (page.maxOffset + 1) (buildNodeItemBytes xid nodeId slot labelIds propBytes) none] },
          .ok true)
  | moved {rel : Relation} {blk' : Nat} {page' : Page} :
      page.fits (42 + labelIds.length * 4 + propBytes.length) = false →
      findOrExtendPage (setXmaxAt s.nodes blk off xid) (42 + labelIds.length * 4 + propBytes.length) = .ok (rel, blk') →
      Grows (setXmaxAt s.nodes blk off xid) rel → rel[blk']? = some page' → page'.IsNodePage →
      UpdateResult xid s nodeId labelIds propBytes blk off slot page
        ({ s with
            nodes := pushAt rel blk' (newVersion xid nodeId slot labelIds propBytes 0 blk' (page'.maxOffset + 1))
            wal := s.wal ++ [.nodeDelete blk off xid] ++
              [.nodeInsert blk' (page'.maxOffset + 1) (buildNodeItemBytes xid nodeId slot labelIds propBytes) none] },
          .ok true)
  | failed {e : PgError} :
      page.fits (42 + labelIds.length * 4 + propBytes.length) = false →
      findOrExtendPage (setXmaxAt s.nodes blk off xid) (42 + labelIds.length * 4 + propBytes.length) = .error e →
      e ≠ .outOfPage →
      UpdateResult xid s nodeId labelIds propBytes blk off slot page
        ({ s with nodes := setXmaxAt s.nodes blk off xid, wal := s.wal ++ [.nodeDelete blk off xid] }, .error e)

theorem updateNodeAt_result (pg : PgSys) (xid : Xid) {s : Store} (nodeId : Int64) {labelIds : List Int32} {propBytes : Bytes}
    {blk off : Nat} (slot : Nat) {page : Page} {v : NodeVersion} (hn : NodePages s.nodes)
    (hl : labelIds.length ≤ maxLabelsPerNode) (hb : propBytes.length ≤ propInlineMax) (hp : s.nodes[blk]? = some page)
    (hv : page.versionAt off = some v) :
    UpdateResult xid s nodeId labelIds propBytes blk off slot page
      (updateNodeAt pg xid s nodeId labelIds propBytes blk off slot) := by
  have hlen : (buildNodeItemBytes xid nodeId slot labelIds propBytes).len = 42 + labelIds.length * 4 + propBytes.length := by
    rw [buildNodeItemBytes, len_buildNodeItem]
  have hat : versionAt s.nodes (blk, off) = some v := versionAt_eq_some.mpr ⟨page, hp, hv⟩
  simp only [updateNodeAt, hp, hlen]
  cases hf : page.fits (42 + labelIds.length * 4 + propBytes.length) with
  | true =>
    have hp' : (setXmaxAt s.nodes blk off xid)[blk]? = some (page.modifyItem off (Item.mapHdr (·.setXmax xid))) := by
      rw [getElem?_setXmaxAt, if_pos rfl, hp, Option.map_some]
    have hused := (hn.isNodePage_of_versionAt hp hv).used.modifyItem off (Item.mapHdr (·.setXmax xid))
    have hf' : (page.modifyItem off (Item.mapHdr (·.setXmax xid))).fits (42 + labelIds.length * 4 + propBytes.length) = true := by
      rw [Page.fits_iff] at hf ⊢
      simpa [Page.pdLower, Page.modifyItem, Page.modify] using hf
    simp only [if_true, updateSamePage, addNodeItem_update pg xid nodeId slot labelIds propBytes hp' hused hf', Store.log]
    simp only [Page.maxOffset_modifyItem]
    exact .stayed hf
  | false =>
    have hle : 42 + labelIds.length * 4 + propBytes.length ≤ 682 := by
      simp only [maxLabelsPerNode, propInlineMax] at hl hb
      omega
    have hn' : NodePages (setXmaxAt s.nodes blk off xid) := hn.setXmaxAt hat
    simp only [Bool.false_eq_true, if_false, updateCrossPage, deleteNodeAt, Store.log, hlen]
    rcases findOrExtendPage_cases hn' (initNodePage_fits hle) with he | ⟨rel, blk', page', he, hg, hp', hnp, hfit⟩
    · simp only [he]
      exact .failed hf he (by simp)
    · simp only [he, addNodeItem_update pg xid nodeId slot labelIds propBytes hp' hnp.used hfit]
      exact .moved hf he hg hp' hnp

theorem findNodeLocation_error {cache : LocationCache} {rel : Relation} {nodeId : Int64} {e : PgError}
    (h : findNodeLocation cache rel nodeId = .error e) : e ≠ .outOfPage := by
  simp only [findNodeLocation] at h
  split at h
  · cases h
  · split at h
    · cases h; simp
    · split at h <;> cases h

/-- What `delete_node_by_id` can do: nothing, or set the deleter of the node's unmarked version. -/
theorem deleteNodeById_cases (xid : Xid) (cache : LocationCache) {s : Store} (nodeId : Int64) (hn : NodePages s.nodes) :
    (∃ r, deleteNodeById xid cache s nodeId = (s, r) ∧ r ≠ .error .outOfPage ∧ r ≠ .ok true) ∨
      ∃ blk off slot, Located s.nodes nodeId blk off slot ∧
        deleteNodeById xid cache s nodeId = (deleteNodeAt xid s blk off, .ok true) := by
  cases hf : findNodeLocation cache s.nodes nodeId with
  | error e =>
    exact Or.inl ⟨.error e, by simp only [deleteNodeById, hf], by simpa using findNodeLocation_error hf, by simp⟩
  | ok r =>
    cases r with
    | none => exact Or.inl ⟨.ok false, by simp only [deleteNodeById, hf], by simp, by simp⟩
    | some r =>
      obtain ⟨blk, off, slot⟩ := r
      exact Or.inr ⟨blk, off, slot, located_of_findNodeLocation hn hf, by simp only [deleteNodeById, hf]⟩

/-- What `update_node` can do: nothing, or the locked step at the node's unmarked version. -/
theorem updateNode_cases (pg : PgSys) (xid : Xid) (cache : LocationCache) {s : Store} (nodeId : Int64)
    (labelIds : List Int32) (propBytes : Bytes) (hn : NodePages s.nodes) :
    (∃ r, updateNode pg xid cache s nodeId labelIds propBytes = (s, r) ∧ r ≠ .error .outOfPage ∧ r ≠ .ok true) ∨
      ∃ blk off slot, labelIds.length ≤ maxLabelsPerNode ∧ propBytes.length ≤ propInlineMax ∧
        findNodeLocation cache s.nodes nodeId = .ok (some (blk, off, slot)) ∧ Located s.nodes nodeId blk off slot ∧
        updateNode pg xid cache s nodeId labelIds propBytes =
          updateNodeAt pg xid s nodeId labelIds propBytes blk off slot := by
  by_cases hl : maxLabelsPerNode < labelIds.length
  · exact Or.inl ⟨.error (.tooManyLabels labelIds.length), by simp only [updateNode, hl, if_true], by simp, by simp⟩
  by_cases hb : propInlineMax < propBytes.length
  · exact Or.inl ⟨.error (.updateTooLarge propBytes.length), by simp only [updateNode, hl, hb, if_true, if_false], by simp,
      by simp⟩
  cases hf : findNodeLocation cache s.nodes nodeId with
  | error e =>
    exact Or.inl ⟨.error e, by simp only [updateNode, hl, hb, if_false, hf], by simpa using findNodeLocation_error hf,
      by simp⟩
  | ok r =>
    cases r with
    | none => exact Or.inl ⟨.ok false, by simp only [updateNode, hl, hb, if_false, hf], by simp, by simp⟩
    | some r =>
      obtain ⟨blk, off, slot⟩ := r
      exact Or.inr ⟨blk, off, slot, Nat.not_lt.mp hl, Nat.not_lt.mp hb, rfl, located_of_findNodeLocation hn hf,
        by simp only [updateNode, hl, hb, if_false, hf]⟩

end PgEddy
