import PgEddy.Lemmas.GraphSteps
import PgEddy.Lemmas.Linked
import PgEddy.Lemmas.Replays

/-!
# Edge pages and their replay

An edge item is logged before its self-pointer is set, so recovery leaves the self-pointer out. Up to that field the blocks it
builds are those of the live relation, with blocks of zeros behind them where the file was extended before the records came.
-/

namespace PgEddy

open LinkedChain PagedStore

/-! ## Pages up to the self-pointers -/

/-- The item without its self-pointer. -/
def Item.eraseCtid (it : Item) : Item := it.mapHdr (fun h => { h with ctid := none })

/-- The line pointer, its item without the self-pointer. -/
def ItemId.eraseCtid (i : ItemId) : ItemId := { i with item := i.item.eraseCtid }

/-- The page, its items without their self-pointers. -/
def Page.eraseCtid (p : Page) : Page := { p with linp := p.linp.map ItemId.eraseCtid }

/-- The relation, its items without their self-pointers. -/
def eraseCtids (rel : Relation) : Relation := List.map Page.eraseCtid rel

/-- The edge item without its self-pointer. -/
def EdgeItem.eraseCtid (e : EdgeItem) : EdgeItem := { e with hdr := { e.hdr with ctid := none } }

@[simp] theorem Item.len_eraseCtid (it : Item) : it.eraseCtid.len = it.len := by cases it <;> rfl

@[simp] theorem Page.maxOffset_eraseCtid (p : Page) : p.eraseCtid.maxOffset = p.maxOffset := by
  simp only [Page.maxOffset, Page.eraseCtid, List.length_map]

@[simp] theorem Page.pdLower_eraseCtid (p : Page) : p.eraseCtid.pdLower = p.pdLower := by
  simp only [Page.pdLower, Page.eraseCtid, List.length_map]

@[simp] theorem Page.pdUpper_eraseCtid (p : Page) : p.eraseCtid.pdUpper = p.pdUpper := rfl

theorem Page.fits_eraseCtid (p : Page) (n : Nat) : p.eraseCtid.fits n = p.fits n := by
  rw [Bool.eq_iff_iff, Page.fits_iff, Page.fits_iff, Page.pdLower_eraseCtid]
  rfl

theorem Page.allUsed_eraseCtid {p : Page} : p.eraseCtid.AllUsed ↔ p.AllUsed := by
  simp only [Page.AllUsed, Page.eraseCtid, List.forall_mem_map]
  rfl

theorem Page.eraseCtid_push (p : Page) (it : Item) : (p.push it).eraseCtid = p.eraseCtid.push it.eraseCtid := by
  simp only [Page.push, Page.eraseCtid, List.map_append, Item.len_eraseCtid]
  rfl

theorem Page.itemId_eraseCtid (p : Page) (off : Nat) : p.eraseCtid.itemId off = (p.itemId off).eraseCtid := by
  unfold Page.itemId
  split
  · rfl
  · simp only [Page.eraseCtid, List.getD_eq_getElem?_getD, List.getElem?_map]
    cases p.linp[off - 1]? <;> rfl

theorem Page.edgeAt_eraseCtid (p : Page) (blk off : Nat) :
    p.eraseCtid.edgeAt blk off = (p.edgeAt blk off).map EdgeItem.eraseCtid := by
  unfold Page.edgeAt
  rw [Page.itemId_eraseCtid]
  rcases p.itemId off with ⟨flags, ⟨hdr, data⟩ | bytes⟩
  · cases flags <;> simp only [ItemId.eraseCtid, Item.eraseCtid, Item.mapHdr] <;> try rfl
    split <;> rfl
  · cases flags <;> rfl

/-- Setting a deleter and leaving out the self-pointers commute. -/
theorem Page.eraseCtid_setXmax (p : Page) (off : Nat) (xmax : Xid) :
    (p.modifyItem off (Item.mapHdr (·.setXmax xmax))).eraseCtid =
      p.eraseCtid.modifyItem off (Item.mapHdr (·.setXmax xmax)) := by
  simp only [Page.modifyItem, Page.modify, Page.eraseCtid]
  congr 1
  refine List.ext_getElem? fun i => ?_
  simp only [List.getElem?_map, List.getElem?_modify, Option.map_eq_map, Option.map_map]
  cases p.linp[i]? with
  | none => rfl
  | some l =>
    simp only [Option.map_some, Function.comp_apply]
    split
    · rcases l with ⟨flags, hdr | bytes⟩ <;> rfl
    · rfl

theorem eraseCtids_modifyBlock (rel : Relation) (blk : Nat) {f : Page → Page} (hf : ∀ p, (f p).eraseCtid = f p.eraseCtid) :
    eraseCtids (modifyBlock rel blk f) = modifyBlock (eraseCtids rel) blk f := by
  refine List.ext_getElem? fun b => ?_
  simp only [eraseCtids, List.getElem?_map, getElem?_modifyBlock]
  split
  · cases rel[b]? <;> simp [hf]
  · rfl

theorem edgeAt_eraseCtids (rel : Relation) (loc : Nat × Nat) :
    edgeAt (eraseCtids rel) loc = (edgeAt rel loc).map EdgeItem.eraseCtid := by
  unfold edgeAt
  rw [eraseCtids, List.getElem?_map]
  cases rel[loc.1]? with
  | none => rfl
  | some p => exact Page.edgeAt_eraseCtid p _ _

theorem edgeItems_eraseCtids (rel : Relation) : edgeItems (eraseCtids rel) = (edgeItems rel).map EdgeItem.eraseCtid := by
  refine scan_map _ (List.length_map _) fun b p p' hp hp' => ?_
  rw [eraseCtids, List.getElem?_map, hp, Option.map_some, Option.some.injEq] at hp'
  subst hp'
  exact ⟨Page.maxOffset_eraseCtid p, fun o _ _ => Page.edgeAt_eraseCtid p b o⟩

/-! ## Blocks of zeros -/

/-- The file of the relation after it was extended to `n` blocks. Extending a file adds blocks of zeros at once and is not
logged; the page is initialised in memory, and again by the redo of the first record on it. -/
def zeroExtended (rel : Relation) (n : Nat) : Relation := rel ++ List.replicate (n - rel.length) zeroPage

theorem edgeAt_zeroPage (blk off : Nat) : zeroPage.edgeAt blk off = none := by
  have hz : zeroPage.itemId off = ItemId.zero := by
    cases off with
    | zero => rfl
    | succ off => exact Page.itemId_of_lt (Nat.succ_pos off)
  unfold Page.edgeAt
  rw [hz]
  rfl

theorem edgeItems_append_zeros (rel : Relation) (k : Nat) :
    edgeItems (rel ++ List.replicate k zeroPage) = edgeItems rel := by
  induction k with
  | zero => rw [List.replicate_zero, List.append_nil]
  | succ k ih =>
    rw [List.replicate_succ', ← List.append_assoc, edgeItems, scan_concat]
    simp only [scanPage, edgeAt_zeroPage]
    rw [List.filterMap_eq_nil_iff.mpr (fun _ _ => rfl), List.append_nil]
    exact ih

theorem edgeAt_append_zeros (rel : Relation) (k : Nat) (loc : Nat × Nat) :
    edgeAt (rel ++ List.replicate k zeroPage) loc = edgeAt rel loc := by
  unfold edgeAt
  by_cases h : loc.1 < rel.length
  · rw [List.getElem?_append_left h]
  · rw [List.getElem?_append_right (by omega), List.getElem?_eq_none (l := rel) (by omega)]
    cases hz : (List.replicate k zeroPage)[loc.1 - rel.length]? with
    | none => rfl
    | some p =>
      rw [List.eq_of_mem_replicate (List.mem_of_getElem? hz), Option.bind_some, edgeAt_zeroPage]
      rfl

/-- The blocks recovery has built are those of the relation up to self-pointers, with zeros behind them up to block `n`. -/
structure EdgesRedone (n : Nat) (edges redone : Relation) : Prop where
  within : edges.length ≤ n
  same : eraseCtids redone = zeroExtended (eraseCtids edges) n

namespace EdgesRedone

variable {n : Nat} {edges redone : Relation}

theorem start (h : edges.length ≤ n) : EdgesRedone n edges (zeroExtended edges n) where
  within := h
  same := by
    unfold zeroExtended eraseCtids
    rw [List.map_append, List.map_replicate, List.length_map]
    rfl

/-- The same items up to self-pointers at the same locations. -/
theorem edgeAt (h : EdgesRedone n edges redone) (loc : Nat × Nat) :
    (PgEddy.edgeAt redone loc).map EdgeItem.eraseCtid = (PgEddy.edgeAt edges loc).map EdgeItem.eraseCtid := by
  rw [← edgeAt_eraseCtids, ← edgeAt_eraseCtids, h.same, zeroExtended, edgeAt_append_zeros]

/-- The same items up to self-pointers in the same order. -/
theorem edgeItems (h : EdgesRedone n edges redone) :
    (PgEddy.edgeItems redone).map EdgeItem.eraseCtid = (PgEddy.edgeItems edges).map EdgeItem.eraseCtid := by
  rw [← edgeItems_eraseCtids, ← edgeItems_eraseCtids, h.same, zeroExtended, edgeItems_append_zeros]

theorem locs (h : EdgesRedone n edges redone) :
    (PgEddy.edgeItems redone).map EdgeItem.loc = (PgEddy.edgeItems edges).map EdgeItem.loc := by
  have he := congrArg (List.map EdgeItem.loc) h.edgeItems
  rw [List.map_map, List.map_map] at he
  exact he

/-- The same next pointers. -/
theorem chainNext (h : EdgesRedone n edges redone) (isOutChain : Bool) (loc : Nat × Nat) :
    PgEddy.chainNext redone isOutChain loc = PgEddy.chainNext edges isOutChain loc := by
  have he := h.edgeAt loc
  unfold PgEddy.chainNext
  cases hr : PgEddy.edgeAt redone loc <;> cases hl : PgEddy.edgeAt edges loc <;>
    simp only [hr, hl, Option.map_some, Option.map_none, Option.some.injEq, reduceCtorEq] at he
  · rfl
  · next d e =>
    have hdata := congrArg EdgeItem.data he
    change d.data = e.data at hdata
    rw [Option.bind_some, Option.bind_some, hdata]

/-- A delete record is redone at the location of an item. -/
theorem setXmaxAt (h : EdgesRedone n edges redone) {e : EdgeItem} (he : e ∈ PgEddy.edgeItems edges) (xmax : Xid) :
    EdgesRedone n (PgEddy.setXmaxAt edges e.loc.1 e.loc.2 xmax) (redoDelete redone e.loc.1 e.loc.2 xmax) := by
  have hat := h.edgeAt e.loc
  rw [mem_edgeItems.mp he, Option.map_some] at hat
  obtain ⟨d, hd, -⟩ := Option.map_eq_some_iff.mp hat
  obtain ⟨page, hpage, hr⟩ := edgeAt_eq_some.mp hd
  obtain ⟨q, hq, -⟩ := edgeAt_eq_some.mp (mem_edgeItems.mp he)
  have hredo : redoDelete redone e.loc.1 e.loc.2 xmax = PgEddy.setXmaxAt redone e.loc.1 e.loc.2 xmax :=
    modifyBlock_congr hpage (by rw [(Page.itemId_of_edgeAt hr).1, if_pos rfl])
  have herase : ∀ rel, eraseCtids (PgEddy.setXmaxAt rel e.loc.1 e.loc.2 xmax) =
      PgEddy.setXmaxAt (eraseCtids rel) e.loc.1 e.loc.2 xmax :=
    fun rel => eraseCtids_modifyBlock rel _ fun p => Page.eraseCtid_setXmax p _ xmax
  refine ⟨by rw [length_setXmaxAt]; exact h.within, ?_⟩
  rw [hredo, herase, herase, h.same]
  have hlt : e.loc.1 < (eraseCtids edges).length := by
    rw [eraseCtids, List.length_map]
    exact (List.getElem?_eq_some_iff.mp hq).1
  unfold zeroExtended
  rw [length_setXmaxAt]
  exact modifyBlock_append_left _ _ hlt

/-- The block an insert record goes to, as recovery finds it: the page up to self-pointers, or zeros where it is fresh. -/
theorem split (h : EdgesRedone n edges redone) {pre : Relation} {page : Page} (hb : EdgeBlock edges pre page)
    (hn : pre.length < n) :
    ∃ before q after, redone = before ++ q :: after ∧ eraseCtids before = eraseCtids pre ∧
      eraseCtids after = List.replicate (n - (pre.length + 1)) zeroPage ∧
      (q.eraseCtid = page.eraseCtid ∨ q.eraseCtid = zeroPage ∧ page = initEdgePage) := by
  have hsame := h.same
  have hparts : ∃ q₀, eraseCtids redone = eraseCtids pre ++ q₀ :: List.replicate (n - (pre.length + 1)) zeroPage ∧
      (q₀ = page.eraseCtid ∨ q₀ = zeroPage ∧ page = initEdgePage) := by
    unfold zeroExtended eraseCtids at hsame
    cases hb with
    | last he =>
      refine ⟨page.eraseCtid, ?_, Or.inl rfl⟩
      rw [eraseCtids, hsame, he]
      simp only [List.map_append, List.map_cons, List.map_nil, List.append_assoc, List.singleton_append, List.length_append,
        List.length_map, List.length_cons, List.length_nil]
      rfl
    | fresh _ =>
      refine ⟨zeroPage, ?_, Or.inr ⟨rfl, rfl⟩⟩
      rw [eraseCtids, hsame, List.length_map, ← List.replicate_succ]
      congr 2
      omega
  obtain ⟨q₀, heq, hq₀⟩ := hparts
  obtain ⟨before, rest, rfl, hbefore, hrest⟩ := List.map_eq_append_iff.mp heq
  obtain ⟨q, after, rfl, rfl, hafter⟩ := List.map_eq_cons_iff.mp hrest
  exact ⟨before, q, after, rfl, hbefore, hafter, hq₀⟩

/-- An insert record is redone on its block. -/
theorem push (h : EdgesRedone n edges redone) (pg : PgSys) {pre : Relation} {page : Page} (hb : EdgeBlock edges pre page)
    (hu : page.AllUsed) (hn : pre.length < n) {it logged : Item} (hit : logged.eraseCtid = it.eraseCtid)
    (hf : page.fits it.len = true) :
    ∃ redone', redoInsert pg initEdgePage redone pre.length (page.maxOffset + 1) logged = .ok redone' ∧
      EdgesRedone n (pre ++ [page.push it]) redone' := by
  obtain ⟨before, q, after, rfl, hbefore, hafter, hq⟩ := h.split hb hn
  have hlen : before.length = pre.length := by
    have := congrArg List.length hbefore
    rwa [eraseCtids, eraseCtids, List.length_map, List.length_map] at this
  have hitlen : logged.len = it.len := by rw [← Item.len_eraseCtid, hit, Item.len_eraseCtid]
  -- the page the item goes on, after the initialisation of a page not in use
  have hpage : (if q.pdUpper = 0 then initEdgePage else q).eraseCtid = page.eraseCtid := by
    rcases hq with hq | ⟨hq, rfl⟩
    · have hup := congrArg Page.pdUpper hq
      rw [Page.pdUpper_eraseCtid, Page.pdUpper_eraseCtid] at hup
      have hfit := Page.fits_iff.mp hf
      rw [if_neg (by rw [hup]; simp only [Page.pdLower, pageHeaderSize] at hfit; omega), hq]
    · have hup := congrArg Page.pdUpper hq
      rw [Page.pdUpper_eraseCtid] at hup
      rw [if_pos (show q.pdUpper = 0 from hup)]
  generalize hr : (if q.pdUpper = 0 then initEdgePage else q) = r at hpage
  have hru : r.AllUsed := Page.allUsed_eraseCtid.mp (hpage ▸ Page.allUsed_eraseCtid.mpr hu)
  have hrf : r.fits logged.len = true := by rw [hitlen, ← Page.fits_eraseCtid, hpage, Page.fits_eraseCtid, hf]
  have hoff : page.maxOffset = r.maxOffset := by rw [← Page.maxOffset_eraseCtid, ← hpage, Page.maxOffset_eraseCtid]
  refine ⟨before ++ r.push logged :: after, ?_, ?_, ?_⟩
  · rw [← hlen, hoff]
    exact redoInsert_append pg before after hr hru hrf
  · rw [List.length_append, List.length_singleton]
    exact hn
  · unfold eraseCtids zeroExtended at *
    simp only [List.map_append, List.map_cons, List.map_nil, hbefore, hafter, Page.eraseCtid_push, hpage, hit,
      List.append_assoc, List.singleton_append, List.length_append, List.length_map, List.length_cons, List.length_nil]

end EdgesRedone

/-! ## Anchored chains -/

/-- The locations of the items of the relation, oldest first. -/
def edgeLocs (edges : Relation) : List (Nat × Nat) := (edgeItems edges).map EdgeItem.loc

/-- The items point back to earlier ones, and the heads of the headers point to items. -/
structure Anchored (nodes edges : Relation) : Prop where
  back : ∀ isOutChain, BackLinked (chainNext edges isOutChain) (edgeLocs edges)
  heads : ∀ loc hdr isOutChain a, headerAt nodes loc = some hdr → link (hdr.head isOutChain) = some a → a ∈ edgeLocs edges

theorem mem_edgeLocs {edges : Relation} {loc : Nat × Nat} : loc ∈ edgeLocs edges ↔ (edgeAt edges loc).isSome := by
  unfold edgeLocs
  rw [List.mem_map]
  constructor
  · rintro ⟨e, he, rfl⟩
    rw [mem_edgeItems.mp he]
    rfl
  · intro h
    obtain ⟨e, he⟩ := Option.isSome_iff_exists.mp h
    exact ⟨e, mem_edgeItems.mpr (by rw [edgeAt_loc he, he]), edgeAt_loc he⟩

@[simp] theorem link_head_zero (isOutChain : Bool) : link (NodeAdjHeader.zero.head isOutChain) = none := by
  cases isOutChain <;> rfl

namespace Anchored

variable {nodes nodes' edges edges' : Relation}

/-- Node pages whose headers are old ones or empty. -/
theorem of_nodes (h : Anchored nodes edges)
    (hh : ∀ loc hdr, headerAt nodes' loc = some hdr → headerAt nodes loc = some hdr ∨ hdr = NodeAdjHeader.zero) :
    Anchored nodes' edges where
  back := h.back
  heads := by
    intro loc hdr isOutChain a hhdr ha
    rcases hh loc hdr hhdr with hold | rfl
    · exact h.heads loc hdr isOutChain a hold ha
    · rw [link_head_zero] at ha
      cases ha

/-- Edge pages with the same locations and the same next pointers. -/
theorem of_edges (h : Anchored nodes edges) (hlocs : edgeLocs edges' = edgeLocs edges)
    (hnext : ∀ isOutChain loc, chainNext edges' isOutChain loc = chainNext edges isOutChain loc) : Anchored nodes edges' where
  back := fun isOutChain => hlocs ▸ (h.back isOutChain).congr fun a _ => hnext isOutChain a
  heads := hlocs ▸ h.heads

/-- One more item, which points back. -/
theorem snoc (h : Anchored nodes edges) {e : EdgeItem} (hitems : edgeItems edges' = edgeItems edges ++ [e])
    (hnext : ∀ isOutChain a, link (nextOf e.data isOutChain) = some a → a ∈ edgeLocs edges) : Anchored nodes edges' := by
  have hlocs : edgeLocs edges' = edgeLocs edges ++ [e.loc] := by
    unfold edgeLocs
    rw [hitems, List.map_append]
    rfl
  refine ⟨fun isOutChain => ?_, fun loc hdr isOutChain a hh ha => ?_⟩
  · rw [hlocs]
    refine .snoc ((h.back isOutChain).congr fun a ha => ?_) fun a ha => hnext isOutChain a ?_
    · obtain ⟨d, hd, rfl⟩ := List.mem_map.mp ha
      rw [chainNext, chainNext, mem_edgeItems.mp hd, mem_edgeItems.mp (hitems ▸ List.mem_append_left _ hd)]
    · rw [chainNext, mem_edgeItems.mp (by rw [hitems]; simp)] at ha
      exact ha
  · rw [hlocs]
    exact List.mem_append_left _ (h.heads loc hdr isOutChain a hh ha)

/-- A header whose heads name items is written. -/
theorem write (h : Anchored nodes edges) {blk idx : Nat} {old hdr : NodeAdjHeader} (hold : headerAt nodes (blk, idx) = some old)
    (hheads : ∀ isOutChain a, link (hdr.head isOutChain) = some a → a ∈ edgeLocs edges) :
    Anchored (writeAdjHeaderAt nodes blk idx hdr) edges where
  back := h.back
  heads := by
    intro loc hdr' isOutChain a hh ha
    rw [headerAt_writeAdjHeaderAt hdr hold] at hh
    split at hh
    · cases hh
      exact hheads isOutChain a ha
    · exact h.heads loc hdr' isOutChain a hh ha

end Anchored

/-! ### What every call keeps -/

theorem anchored_empty : Anchored Store.empty.nodes Store.empty.edges where
  back := fun _ => .nil
  heads := by
    intro loc hdr isOutChain a hh _
    simp [headerAt, Store.empty] at hh

/-- A change of items that keeps where they are and where they point. -/
theorem Anchored.map {nodes edges edges' : Relation} (h : Anchored nodes edges) (f : EdgeItem → EdgeItem)
    (hitems : edgeItems edges' = (edgeItems edges).map f) (hloc : ∀ e, (f e).loc = e.loc) (hdata : ∀ e, (f e).data = e.data) :
    Anchored nodes edges' := by
  have hlocs : edgeLocs edges' = edgeLocs edges := by
    unfold edgeLocs
    rw [hitems, List.map_map]
    exact List.map_congr_left fun e _ => hloc e
  refine h.of_edges hlocs fun isOutChain loc => ?_
  unfold chainNext
  cases he : edgeAt edges loc with
  | none =>
    have hn : edgeAt edges' loc = none := by
      rw [← Option.not_isSome_iff_eq_none, ← mem_edgeLocs, hlocs, mem_edgeLocs, he]
      exact Bool.false_ne_true
    rw [hn]
  | some e =>
    have hmem : f e ∈ edgeItems edges' := hitems ▸ List.mem_map_of_mem (mem_edgeItems.mpr (by rw [edgeAt_loc he, he]))
    have hf : edgeAt edges' loc = some (f e) := by
      rw [← edgeAt_loc he, ← hloc e]
      exact mem_edgeItems.mp hmem
    rw [hf, Option.bind_some, Option.bind_some, hdata]

/-- A deleter is set. -/
theorem Anchored.setXmaxAt {nodes edges : Relation} (h : Anchored nodes edges) {e : EdgeItem} (he : e ∈ edgeItems edges)
    (xid : Xid) : Anchored nodes (setXmaxAt edges e.loc.1 e.loc.2 xid) :=
  h.map (fun d => if d.loc = e.loc then d.setXmax xid else d) (edgeItems_setXmaxAt he xid)
    (fun d => (edgeMark_map d).1) (fun d => (edgeMark_map d).2.2)

section Link

variable {nodes edges edges' : Relation} {xid : Xid} {edgeId : Int64} {relTypeId : Int32} {src tgt : Int64} {propBytes : Bytes}
  {sb sa tb ta : Nat} {srcAdj tgtAdj : NodeAdjHeader} {loc : Nat × Nat}

/-- The new edge points to the old heads. -/
theorem Anchored.linkItem (h : Anchored nodes edges) (hp : EdgePages edges) (hs : headerAt nodes (sb, sa) = some srcAdj)
    (ht : headerAt nodes (tb, ta) = some tgtAdj)
    (hitems : edgeItems edges' = edgeItems edges ++ [newEdge xid edgeId relTypeId src tgt srcAdj tgtAdj propBytes loc]) :
    Anchored nodes edges' := by
  have htrunc : ∀ (a : Nat × Nat) (hdr : NodeAdjHeader) (isOutChain : Bool), headerAt nodes a = some hdr →
      link ((hdr.head isOutChain).1 % 4294967296, (hdr.head isOutChain).2 % 65536) = link (hdr.head isOutChain) := by
    intro a hdr isOutChain hh
    exact link_truncated hp fun b hb => mem_edgeLocs.mp (h.heads a hdr isOutChain b hh hb)
  refine h.snoc hitems fun isOutChain a ha => ?_
  have hnext := nextOf_edgeData edgeId relTypeId src tgt srcAdj.outHeadPg srcAdj.outHeadSl tgtAdj.inHeadPg
    tgtAdj.inHeadSl propBytes isOutChain
  rw [newEdge, hnext] at ha
  cases isOutChain
  · exact h.heads _ tgtAdj false a ht (htrunc _ tgtAdj false ht ▸ ha)
  · exact h.heads _ srcAdj true a hs (htrunc _ srcAdj true hs ▸ ha)

/-- A head pushed to an item, the other one as it was. -/
theorem link_head_push {adj : NodeAdjHeader} (hloc : loc ∈ edgeLocs edges)
    (hold : ∀ isOutChain a, link (adj.head isOutChain) = some a → a ∈ edgeLocs edges) (isOutChain : Bool) (a : Nat × Nat) :
    (link ((adj.pushOut loc.1 loc.2).head isOutChain) = some a → a ∈ edgeLocs edges) ∧
      (link ((adj.pushIn loc.1 loc.2).head isOutChain) = some a → a ∈ edgeLocs edges) := by
  have hnew : link loc = some a → a ∈ edgeLocs edges := by
    intro ha
    unfold link at ha
    split at ha
    · cases ha
    · cases ha
      exact hloc
  cases isOutChain
  · exact ⟨hold false a, hnew⟩
  · exact ⟨hnew, hold true a⟩

/-- The header of the source is written, then that of the target. -/
theorem Anchored.pushHeads (h : Anchored nodes edges) (hs : headerAt nodes (sb, sa) = some srcAdj)
    (ht : headerAt nodes (tb, ta) = some tgtAdj) (hloc : loc ∈ edgeLocs edges) :
    Anchored (writeAdjHeaderAt nodes sb sa (srcAdj.pushOut loc.1 loc.2)) edges ∧
      Anchored (pushHeads nodes sb sa tb ta srcAdj tgtAdj loc) edges := by
  have hold : ∀ (b : Nat × Nat) hdr, headerAt nodes b = some hdr → ∀ isOutChain a,
      link (hdr.head isOutChain) = some a → a ∈ edgeLocs edges :=
    fun b hdr hh isOutChain a ha => h.heads b hdr isOutChain a hh ha
  have hsrc := fun isOutChain a => (link_head_push hloc (hold _ _ hs) isOutChain a).1
  have h1 := h.write hs hsrc
  have ht' : ∃ old, headerAt (writeAdjHeaderAt nodes sb sa (srcAdj.pushOut loc.1 loc.2)) (tb, ta) = some old := by
    rw [headerAt_writeAdjHeaderAt _ hs]
    split
    · exact ⟨_, rfl⟩
    · exact ⟨_, ht⟩
  obtain ⟨old, ht'⟩ := ht'
  refine ⟨h1, h1.write ht' fun isOutChain a => ?_⟩
  split
  · exact (link_head_push hloc hsrc isOutChain a).2
  · exact (link_head_push hloc (hold _ _ ht) isOutChain a).2

end Link

/-- Every call keeps the chains anchored. -/
theorem Anchored.effect {s t : Store} {op : GraphOp} (h : Anchored s.nodes s.edges) (hw : WellFormed s) (he : op.Effect s t) :
    Anchored t.nodes t.edges := by
  cases he with
  | grown hg hedges =>
    rw [hedges]
    exact h.of_nodes fun loc hdr hh => (hg.headerAt hh).imp_right And.right
  | inserted hg _ _ _ _ _ _ _ hnodes hedges =>
    rw [hnodes, hedges]
    refine h.of_nodes fun loc hdr hh => ?_
    rw [headerAt_pushAt] at hh
    exact (hg.headerAt hh).imp_right And.right
  | updated _ hg _ _ _ _ hnodes hedges =>
    rw [hnodes, hedges]
    refine h.of_nodes fun loc hdr hh => ?_
    rw [headerAt_pushAt] at hh
    have hold := (hg.headerAt hh).imp_right And.right
    rwa [headerAt_setXmaxAt] at hold
  | marked _ hnodes hedges =>
    rw [hnodes, hedges]
    refine h.of_nodes fun loc hdr hh => Or.inl ?_
    rwa [headerAt_setXmaxAt] at hh
  | @linked _ _ _ _ _ _ _ _ _ _ _ _ _ _ _ loc _ _ _ _ hs ht hnodes _ hitems =>
    rw [hnodes]
    refine ((h.linkItem hw.edgePages hs ht hitems).pushHeads hs ht ?_).2
    unfold edgeLocs
    rw [hitems]
    simp
  | edgeMarked he _ _ hnodes hedges =>
    rw [hnodes, hedges]
    exact h.setXmaxAt he _

/-- What recovery has built of anchored chains is anchored. -/
theorem EdgesRedone.anchored {n : Nat} {nodes edges redone : Relation} (h : EdgesRedone n edges redone)
    (ha : Anchored nodes edges) : Anchored nodes redone := ha.of_edges h.locs h.chainNext

end PgEddy
