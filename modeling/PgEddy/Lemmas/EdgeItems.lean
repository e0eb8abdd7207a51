import PgEddy.EdgeStore
import PgEddy.Lemmas.Versions
import PgEddy.Lib.Chain

/-!
# Edge relations, edge by edge

An edge relation is seen as the list of its edge items in physical order, oldest first, since a new edge always goes behind the
last one of the last block. The scans of the edge store are scans of this list, and the walk along a chain is a walk along
linked locations.
-/

namespace PgEddy

open ByteBuffer PagedStore LinkedChain

/-- An edge record where it lies: its location, the header of the tuple and the data portion. -/
structure EdgeItem where
  loc : Nat × Nat
  hdr : HeapTupleHeader
  data : Bytes
  deriving DecidableEq, Repr

namespace EdgeItem

def edgeId (e : EdgeItem) : Int64 := edgeIdOf e.data

def source (e : EdgeItem) : Int64 := sourceOf e.data

def target (e : EdgeItem) : Int64 := targetOf e.data

/-- No deleter is set. -/
def undeleted (e : EdgeItem) : Bool := e.hdr.xmaxInvalid

/-- The record of an item, whether it is visible or not. -/
def record (e : EdgeItem) : Option EdgeRecord := decodeEdgeRecord e.data e.loc.1 e.loc.2

/-- The item with its deleter set. -/
def setXmax (e : EdgeItem) (xmax : Xid) : EdgeItem := { e with hdr := e.hdr.setXmax xmax }

@[simp] theorem edgeId_setXmax (e : EdgeItem) (xmax : Xid) : (e.setXmax xmax).edgeId = e.edgeId := rfl

@[simp] theorem source_setXmax (e : EdgeItem) (xmax : Xid) : (e.setXmax xmax).source = e.source := rfl

@[simp] theorem target_setXmax (e : EdgeItem) (xmax : Xid) : (e.setXmax xmax).target = e.target := rfl

@[simp] theorem loc_setXmax (e : EdgeItem) (xmax : Xid) : (e.setXmax xmax).loc = e.loc := rfl

@[simp] theorem undeleted_setXmax (e : EdgeItem) (xmax : Xid) : (e.setXmax xmax).undeleted = false := rfl

end EdgeItem

/-- The edge item at an offset of a page. -/
def Page.edgeAt (p : Page) (blk off : Nat) : Option EdgeItem :=
  match p.itemId off with
  | ⟨.normal, .tuple hdr data⟩ => if data.length < edgeFixedDataSize then none else some ⟨(blk, off), hdr, data⟩
  | _ => none

/-- The edge item at a location. -/
def edgeAt (rel : Relation) (loc : Nat × Nat) : Option EdgeItem := rel[loc.1]?.bind (fun p => p.edgeAt loc.1 loc.2)

/-- All edge items of a relation, in physical order. -/
def edgeItems (rel : Relation) : List EdgeItem := scan Page.maxOffset (fun p b off => p.edgeAt b off) rel

/-- A page of the edge relation. -/
structure Page.IsEdgePage (p : Page) : Prop where
  used : p.AllUsed
  headers : p.special = []
  lower : p.pdLower ≤ p.pdUpper
  upper : p.pdUpper ≤ blcksz

/-- Every block of an edge relation is an edge page, and the blocks have numbers. -/
structure EdgePages (rel : Relation) : Prop where
  pages : ∀ p ∈ rel, p.IsEdgePage
  blocks : rel.length ≤ maxBlocks

theorem Page.IsEdgePage.maxOffset_lt {p : Page} (h : p.IsEdgePage) : p.maxOffset < 65536 := by
  have h1 := h.lower
  have h2 := h.upper
  simp only [Page.pdLower, pageHeaderSize, itemIdSize, blcksz] at h1 h2
  simp only [Page.maxOffset]
  omega

theorem Page.itemId_of_edgeAt {p : Page} {blk off : Nat} {e : EdgeItem} (h : p.edgeAt blk off = some e) :
    p.itemId off = ⟨.normal, .tuple e.hdr e.data⟩ ∧ e.loc = (blk, off) ∧ ¬e.data.length < edgeFixedDataSize := by
  rcases hi : p.itemId off with ⟨flags, ⟨hdr, data⟩ | bytes⟩
  · cases flags <;> simp only [Page.edgeAt, hi, reduceCtorEq] at h
    split at h
    · cases h
    · next hl => cases h; exact ⟨rfl, rfl, hl⟩
  · cases flags <;> simp only [Page.edgeAt, hi, reduceCtorEq] at h

theorem Page.offset_of_edgeAt {p : Page} {blk off : Nat} {e : EdgeItem} (h : p.edgeAt blk off = some e) :
    1 ≤ off ∧ off ≤ p.maxOffset := by
  apply Page.offset_of_used
  rw [(Page.itemId_of_edgeAt h).1]
  simp

theorem edgeAt_eq_some {rel : Relation} {loc : Nat × Nat} {e : EdgeItem} :
    edgeAt rel loc = some e ↔ ∃ p, rel[loc.1]? = some p ∧ p.edgeAt loc.1 loc.2 = some e := Option.bind_eq_some_iff

theorem edgeAt_loc {rel : Relation} {loc : Nat × Nat} {e : EdgeItem} (h : edgeAt rel loc = some e) : e.loc = loc := by
  obtain ⟨p, -, hp⟩ := edgeAt_eq_some.mp h
  exact (Page.itemId_of_edgeAt hp).2.1

theorem mem_edgeItems {rel : Relation} {e : EdgeItem} : e ∈ edgeItems rel ↔ edgeAt rel e.loc = some e := by
  rw [edgeItems, mem_scan, edgeAt_eq_some]
  constructor
  · rintro ⟨b, p, o, hp, -, -, hr⟩
    have hl := (Page.itemId_of_edgeAt hr).2.1
    rw [hl]
    exact ⟨p, hp, hr⟩
  · rintro ⟨p, hp, hr⟩
    obtain ⟨h1, h2⟩ := Page.offset_of_edgeAt hr
    exact ⟨e.loc.1, p, e.loc.2, hp, h1, h2, hr⟩

/-- The location of an item has a block number and an offset that fit the fields of a next pointer. -/
theorem EdgePages.loc_lt {rel : Relation} (h : EdgePages rel) {loc : Nat × Nat} {e : EdgeItem} (he : edgeAt rel loc = some e) :
    loc.1 < 4294967296 ∧ 1 ≤ loc.2 ∧ loc.2 < 65536 := by
  obtain ⟨p, hp, hr⟩ := edgeAt_eq_some.mp he
  have hb := (List.getElem?_eq_some_iff.mp hp).1
  have hl := h.blocks
  simp only [maxBlocks] at hl
  obtain ⟨h1, h2⟩ := Page.offset_of_edgeAt hr
  have := (h.pages p (List.mem_of_getElem? hp)).maxOffset_lt
  exact ⟨by omega, h1, by omega⟩

/-! ## The scans -/

/-- What `read_edge_at_offset` makes of an item. -/
def EdgeItem.read (be : Backend) (e : EdgeItem) : Option EdgeRecord := if edgeVisible be e.hdr then e.record else none

theorem readEdgeAtOffset_eq (be : Backend) (page : Page) (blkno off : Nat) :
    readEdgeAtOffset be page blkno off = (page.edgeAt blkno off).bind (fun e => e.read be) := by
  rcases hi : page.itemId off with ⟨flags, ⟨hdr, data⟩ | bytes⟩
  · cases flags <;> simp only [readEdgeAtOffset, Page.edgeAt, hi] <;> try rfl
    by_cases hl : data.length < edgeFixedDataSize
    · simp [hl]
    · simp only [hl, if_false, Option.bind_some, EdgeItem.read, EdgeItem.record]
  · cases flags <;> simp only [readEdgeAtOffset, Page.edgeAt, hi] <;> rfl

theorem scanAllEdges_eq (be : Backend) (rel : Relation) :
    scanAllEdges be rel = (edgeItems rel).filterMap (fun e => e.read be) := by
  rw [edgeItems, ← scan_bind]
  simp only [scanAllEdges, blocks, scan, scanPage, Page.offsets, ← readEdgeAtOffset_eq]

theorem findEdgeById_eq (be : Backend) (rel : Relation) (edgeId : Int64) :
    findEdgeById be rel edgeId =
      ((edgeItems rel).filterMap (fun e => (e.read be).filter (fun rec => rec.edgeId == edgeId))).head? := by
  rw [edgeItems, ← scan_bind, ← scanFirst_eq_head?]
  have h : ∀ page blkno off, (readEdgeAtOffset be page blkno off).filter (fun rec => rec.edgeId == edgeId) =
      (page.edgeAt blkno off).bind (fun e => (e.read be).filter (fun rec => rec.edgeId == edgeId)) := by
    intro page blkno off
    rw [readEdgeAtOffset_eq]
    cases page.edgeAt blkno off <;> rfl
  simp only [findEdgeById, blocks, scanFirst, Page.offsets, h]

/-! ## Chains -/

/-- The location a next pointer gives; slot 0 ends the chain. -/
def link (p : Nat × Nat) : Option (Nat × Nat) := if p.2 = 0 then none else some p

/-- The location behind a location in the out-chains or in the in-chains. -/
def chainNext (rel : Relation) (isOutChain : Bool) (loc : Nat × Nat) : Option (Nat × Nat) :=
  (edgeAt rel loc).bind (fun e => link (nextOf e.data isOutChain))

/-- What the walk along a chain takes from a location: the record of an undeleted edge that passes the filter. -/
def chainRecord (rel : Relation) (relTypeFilter : Option Int32) (loc : Nat × Nat) : Option EdgeRecord :=
  (edgeAt rel loc).bind (fun e => if e.undeleted then e.record.filter (passesFilter relTypeFilter) else none)

theorem readChainSlot_of_edgeAt {rel : Relation} {page : Page} {pg sl : Nat} {isOutChain : Bool} {e : EdgeItem}
    (hp : rel[pg]? = some page) (he : edgeAt rel (pg, sl) = some e) :
    readChainSlot page pg sl isOutChain =
      .next (nextOf e.data isOutChain).1 (nextOf e.data isOutChain).2 (if e.undeleted then e.record else none) := by
  obtain ⟨p, hp', hr⟩ := edgeAt_eq_some.mp he
  cases hp.symm.trans hp'
  obtain ⟨hi, hl, hlen⟩ := Page.itemId_of_edgeAt hr
  simp only [readChainSlot, hi, hlen, if_false, EdgeItem.undeleted, EdgeItem.record, hl]
  simp

/-- The inner loop takes a nonempty stretch of the chain, as far as it stays on the page, and leaves at the rest. -/
theorem followPage_chain {rel : Relation} {page : Page} {pg : Nat} {isOutChain : Bool} (relTypeFilter : Option Int32)
    (hp : rel[pg]? = some page) :
    ∀ {fuel sl : Nat} {l : List (Nat × Nat)} (out : List EdgeRecord), sl ≠ 0 → l.length ≤ fuel →
      Chain (chainNext rel isOutChain) (some (pg, sl)) l → (∀ a ∈ l, (edgeAt rel a).isSome) →
      ∃ pre post q, l = pre ++ post ∧ pre ≠ [] ∧ Chain (chainNext rel isOutChain) (link q) post ∧
        followPage page pg isOutChain relTypeFilter fuel sl out =
          some (q.1, q.2, out ++ pre.filterMap (chainRecord rel relTypeFilter))
  | 0, sl, l, out, _, hf, hc, _ => by
    obtain ⟨t, rfl, -⟩ := chain_some_iff.mp hc
    simp at hf
  | fuel + 1, sl, l, out, hsl, hf, hc, hl => by
    obtain ⟨t, rfl, ht⟩ := chain_some_iff.mp hc
    obtain ⟨e, he⟩ := Option.isSome_iff_exists.mp (hl _ List.mem_cons_self)
    have hnext : chainNext rel isOutChain (pg, sl) = link (nextOf e.data isOutChain) := by
      rw [chainNext, he, Option.bind_some]
    have hrec : (if e.undeleted then e.record else none).filter (passesFilter relTypeFilter) =
        chainRecord rel relTypeFilter (pg, sl) := by
      rw [chainRecord, he, Option.bind_some]
      split <;> rfl
    rw [hnext] at ht
    simp only [followPage, hsl, if_false, readChainSlot_of_edgeAt hp he, hrec]
    by_cases hstay : (nextOf e.data isOutChain).2 = 0 ∨ (nextOf e.data isOutChain).1 ≠ pg
    · refine ⟨[(pg, sl)], t, nextOf e.data isOutChain, rfl, by simp, ht, ?_⟩
      simp only [hstay, if_true, List.filterMap_cons, List.filterMap_nil]
      cases chainRecord rel relTypeFilter (pg, sl) <;> simp
    · have hne : (nextOf e.data isOutChain).2 ≠ 0 := fun h => hstay (Or.inl h)
      have hpg : (nextOf e.data isOutChain).1 = pg := by
        by_contra h
        exact hstay (Or.inr h)
      have hlink : link (nextOf e.data isOutChain) = some (pg, (nextOf e.data isOutChain).2) := by
        rw [link, if_neg hne, ← hpg]
      rw [hlink] at ht
      simp only [hstay, if_false]
      have hlen : t.length ≤ fuel := by simp only [List.length_cons] at hf; omega
      obtain ⟨pre, post, q, rfl, -, hpost, hfollow⟩ := followPage_chain relTypeFilter hp
        (out ++ (chainRecord rel relTypeFilter (pg, sl)).toList) hne hlen ht (fun a ha => hl a (List.mem_cons_of_mem _ ha))
      refine ⟨(pg, sl) :: pre, post, q, rfl, by simp, hpost, ?_⟩
      rw [hfollow, List.filterMap_cons, List.append_assoc]
      cases chainRecord rel relTypeFilter (pg, sl) <;> simp

theorem followChain_end (rel : Relation) (isOutChain : Bool) (relTypeFilter : Option Int32) (fuel pg : Nat)
    (out : List EdgeRecord) : followChain rel isOutChain relTypeFilter fuel pg 0 out = some (.ok out) := by
  cases fuel <;> simp [followChain]

/-- The walk along a chain of existing items ends and returns the undeleted ones that pass the filter, in the order of the
chain, once the fuel covers the chain. -/
theorem followChain_chain {rel : Relation} {isOutChain : Bool} {relTypeFilter : Option Int32} :
    ∀ {fuel : Nat} {h : Nat × Nat} {l : List (Nat × Nat)} {out : List EdgeRecord}, l.length ≤ fuel →
      Chain (chainNext rel isOutChain) (link h) l → (∀ a ∈ l, (edgeAt rel a).isSome) →
      followChain rel isOutChain relTypeFilter fuel h.1 h.2 out =
        some (.ok (out ++ l.filterMap (chainRecord rel relTypeFilter)))
  | fuel, h, l, out, hf, hc, hl => by
    by_cases h0 : h.2 = 0
    · rw [link, if_pos h0] at hc
      rw [chain_none_iff.mp hc, h0, followChain_end, List.filterMap_nil, List.append_nil]
    rw [link, if_neg h0] at hc
    obtain ⟨t, ht, -⟩ := chain_some_iff.mp hc
    obtain ⟨e, he⟩ := Option.isSome_iff_exists.mp (hl h (ht ▸ List.mem_cons_self))
    obtain ⟨page, hp, -⟩ := edgeAt_eq_some.mp he
    cases fuel with
    | zero => rw [ht] at hf; simp at hf
    | succ fuel =>
      obtain ⟨pre, post, q, hsplit, hpre, hpost, hfollow⟩ :=
        followPage_chain relTypeFilter hp out h0 hf hc hl
      have hlen : post.length ≤ fuel := by
        have : 0 < pre.length := List.length_pos_iff.mpr hpre
        rw [hsplit, List.length_append] at hf
        omega
      rw [followChain, if_neg h0]
      simp only [readBuffer, hp, hfollow]
      rw [followChain_chain hlen hpost (fun a ha => hl a (hsplit ▸ List.mem_append_right _ ha)), hsplit,
        List.filterMap_append, List.append_assoc]

end PgEddy
