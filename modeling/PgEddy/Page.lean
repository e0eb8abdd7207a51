import PgEddy.Lib.Bytes

/-!
# Pages: the layout of `storage/page.rs` and the page routines of PostgreSQL

A relation is a list of pages, block 0 first. A page holds line pointers, each with the item it points to, and a special area,
which on a node page is the array of adjacency headers and on every other page is empty. `pd_lower` and `pd_special` are
functions of these; `pd_upper` is a field.

The routines of PostgreSQL that place an item on a page and that compact a page are not part of the repository. They are
parameters (`PgSys`), with what the code relies on as their laws: on a page none of whose line pointers is unused, a new item
goes behind the last line pointer when it fits between `pd_lower` and `pd_upper`, and compaction moves items, up to the special
area at most, without changing line pointers, items or the special area.
-/

namespace PgEddy

open ByteBuffer

/-- Transaction ids. -/
abbrev Xid : Type := Nat

/-- `InvalidTransactionId`. -/
def invalidTransactionId : Xid := 0

/-- Bytes on a page, in a property value or in a record. -/
abbrev Bytes : Type := List UInt8

/-! ## Constants -/

/-- `BLCKSZ`. -/
def blcksz : Nat := 8192

/-- `size_of::<PageHeaderData>()`. -/
def pageHeaderSize : Nat := 24

/-- `size_of::<ItemIdData>()`. -/
def itemIdSize : Nat := 4

/-- `size_of::<HeapTupleHeaderData>()`. -/
def hdrSize : Nat := 24

/-- The most blocks a relation has: block numbers are 32 bits and the last one is `InvalidBlockNumber`. -/
def maxBlocks : Nat := 4294967295

def maxNodeSlotsPerPage : Nat := 100

def adjHeaderBytes : Nat := 24

def pdNodeSpecialSize : Nat := maxNodeSlotsPerPage * adjHeaderBytes

def pdNodeSpecialOffset : Nat := 8192 - pdNodeSpecialSize

def propInlineMax : Nat := 512

def maxLabelsPerNode : Nat := 32

def nodeFixedDataSize : Nat := 18

def edgeFixedDataSize : Nat := 46

/-! Offsets of the fields of a node record, from the end of the tuple header. -/

def offNodeId : Nat := 0
def offAdjSlot : Nat := 8
def offLabelCount : Nat := 10
def offPropInlineLen : Nat := 11
def offPropOverflowPage : Nat := 13
def offLabelIds : Nat := 18

/-! Offsets of the fields of an edge record, from the end of the tuple header. -/

def offEdgeRelId : Nat := 0
def offEdgeRelTypeId : Nat := 8
def offEdgeSourceNodeId : Nat := 12
def offEdgeTargetNodeId : Nat := 20
def offEdgeNextOutPage : Nat := 28
def offEdgeNextOutSlot : Nat := 32
def offEdgeNextInPage : Nat := 34
def offEdgeNextInSlot : Nat := 38
def offEdgePropInlineLen : Nat := 40
def offEdgePropOverflowPage : Nat := 42
def offEdgePropData : Nat := 46

/-! ## Errors -/

/-- What a storage call raises: the errors of the code, two errors of PostgreSQL, and an access outside the special area of a
page, which the code does not check and whose effect is undefined. -/
inductive PgError where
  | tooManyLabels (n : Nat)
  | updateTooLarge (n : Nat)
  | edgeTooLarge (n : Nat)
  | edgeUpdateTooLarge (n : Nat)
  | edgeUpdateNoRoom (n available : Nat)
  | sourceNotFound (nodeId : Int64)
  | targetNotFound (nodeId : Int64)
  | overflowAddFailed
  | nodeAddFailed (blkno : Nat)
  | crossPageAddFailed
  | updateAddFailed (blkno : Nat)
  | edgeAddFailed (blkno : Nat)
  | couldNotReadBlock (blkno : Nat)
  | cannotExtend
  | outOfPage
  deriving DecidableEq, Repr

/-- The text of an error the code raises; none for those raised by PostgreSQL and for an access outside the page. -/
def PgError.message : PgError → Option String
  | .tooManyLabels n => some s!"pg_eddy PE101: node has {n} labels, max is {maxLabelsPerNode}"
  | .updateTooLarge n =>
    some s!"pg_eddy PE200: property data ({n} B) exceeds inline limit ({propInlineMax} B)"
  | .edgeTooLarge n =>
    some s!"pg_eddy PE200: edge property data ({n} B) exceeds inline limit ({propInlineMax} B); overflow not yet implemented"
  | .edgeUpdateTooLarge n =>
    some s!"pg_eddy PE200: edge property data ({n} B) exceeds inline limit ({propInlineMax} B)"
  | .edgeUpdateNoRoom n available =>
    some s!"pg_eddy PE200: edge property update ({n} B) exceeds reserved space ({available} B)"
  | .sourceNotFound i => some s!"pg_eddy PE400: source node {i} not found"
  | .targetNotFound i => some s!"pg_eddy PE400: target node {i} not found"
  | .overflowAddFailed => some "pg_eddy: PageAddItemExtended failed for overflow block"
  | .nodeAddFailed b => some s!"pg_eddy: PageAddItemExtended failed on block {b}"
  | .crossPageAddFailed => some "pg_eddy: PageAddItemExtended failed for cross-page node update"
  | .updateAddFailed b => some s!"pg_eddy: PageAddItemExtended failed for node update on block {b}"
  | .edgeAddFailed b => some s!"pg_eddy: PageAddItemExtended failed for edge on block {b}"
  | .couldNotReadBlock _ | .cannotExtend | .outOfPage => none

/-! ## Items and line pointers -/

/-- The fields of `HeapTupleHeaderData` the code sets and reads; the three flags are bits of `t_infomask`. -/
structure HeapTupleHeader where
  xmin : Xid
  xmax : Xid
  xminCommitted : Bool
  xminInvalid : Bool
  xmaxInvalid : Bool
  ctid : Option (Nat × Nat)
  deriving DecidableEq, Repr

/-- The header of a new record: inserted by `xid`, no deleter, `t_ctid` not yet set. -/
def HeapTupleHeader.fresh (xid : Xid) : HeapTupleHeader :=
  { xmin := xid, xmax := invalidTransactionId, xminCommitted := false, xminInvalid := false, xmaxInvalid := true,
    ctid := none }

/-- `HeapTupleHeaderSetXmax` and the clearing of `HEAP_XMAX_INVALID`, which the code always does together. -/
def HeapTupleHeader.setXmax (h : HeapTupleHeader) (xmax : Xid) : HeapTupleHeader :=
  { h with xmax := xmax, xmaxInvalid := false }

/-- The content of a line pointer: a record with its tuple header, or the plain bytes of an overflow block. -/
inductive Item where
  | tuple (hdr : HeapTupleHeader) (data : Bytes)
  | raw (bytes : Bytes)
  deriving DecidableEq, Repr

/-- `lp_len`. -/
def Item.len : Item → Nat
  | .tuple _ data => hdrSize + data.length
  | .raw bytes => bytes.length

/-- Change the header of a record. -/
def Item.mapHdr (f : HeapTupleHeader → HeapTupleHeader) : Item → Item
  | .tuple hdr data => .tuple (f hdr) data
  | .raw bytes => .raw bytes

/-- Change the data portion of a record. -/
def Item.mapData (f : Bytes → Bytes) : Item → Item
  | .tuple hdr data => .tuple hdr (f data)
  | .raw bytes => .raw bytes

/-- The states of a line pointer. -/
inductive LpFlags where
  | unused | normal | redirect | dead
  deriving DecidableEq, Repr

/-- A line pointer and the item it points to. -/
structure ItemId where
  lpFlags : LpFlags
  item : Item
  deriving DecidableEq, Repr

/-- What the bytes of a cleared page read as: a line pointer that is not in use. -/
def ItemId.zero : ItemId := { lpFlags := .unused, item := .raw [] }

/-! ## Adjacency headers -/

/-- `NodeAdjHeader`: the heads of the two edge chains of a node, the approximate degrees, and a reserved field. -/
structure NodeAdjHeader where
  outHeadPg : Nat
  outHeadSl : Nat
  inHeadPg : Nat
  inHeadSl : Nat
  outDegree : Nat
  inDegree : Nat
  graphPartitionId : Nat
  deriving DecidableEq, Repr

/-- The header of 24 zero bytes: both chains empty. -/
def NodeAdjHeader.zero : NodeAdjHeader := ⟨0, 0, 0, 0, 0, 0, 0⟩

/-! ## Pages -/

/-- A page: where free space ends, the line pointers (offset 1 first) and the special area. -/
structure Page where
  pdUpper : Nat
  linp : List ItemId
  special : List NodeAdjHeader
  deriving DecidableEq, Repr

/-- `pd_lower`. -/
def Page.pdLower (p : Page) : Nat := pageHeaderSize + itemIdSize * p.linp.length

/-- `pd_special`. -/
def Page.pdSpecial (p : Page) : Nat := blcksz - adjHeaderBytes * p.special.length

/-- `PageInit` with a special area of `n` zeroed adjacency headers. -/
def pageInit (n : Nat) : Page :=
  { pdUpper := blcksz - adjHeaderBytes * n, linp := [], special := List.replicate n NodeAdjHeader.zero }

/-- `PageGetMaxOffsetNumber`. -/
def Page.maxOffset (p : Page) : Nat := p.linp.length

/-- The offsets `FirstOffsetNumber..=max_off`. -/
def Page.offsets (p : Page) : List Nat := List.range' 1 p.maxOffset

/-- `PageGetItemId`; past the last line pointer the page is zero. -/
def Page.itemId (p : Page) (off : Nat) : ItemId :=
  if off = 0 then ItemId.zero else p.linp.getD (off - 1) ItemId.zero

/-- Change the line pointer at an offset. -/
def Page.modify (p : Page) (off : Nat) (f : ItemId → ItemId) : Page :=
  { p with linp := p.linp.modify (off - 1) f }

/-- Change the item at an offset. -/
def Page.modifyItem (p : Page) (off : Nat) (f : Item → Item) : Page :=
  p.modify off (fun i => { i with item := f i.item })

/-- Free bytes between the line pointers and the items, no less than zero. -/
def pageFreeSpace (p : Page) : Nat := p.pdUpper - p.pdLower

/-- `MAXALIGN`: up to the next multiple of 8. -/
def maxAlign (n : Nat) : Nat := (n + 7) / 8 * 8

/-- The test the code makes before it places an item: its aligned size and one line pointer fit. -/
def Page.fits (p : Page) (itemSize : Nat) : Bool := decide (maxAlign itemSize + itemIdSize ≤ pageFreeSpace p)

/-- The page with an item placed behind the last line pointer. -/
def Page.push (p : Page) (it : Item) : Page :=
  { p with pdUpper := p.pdUpper - maxAlign it.len, linp := p.linp ++ [{ lpFlags := .normal, item := it }] }

/-- `is_overflow_page`. -/
def isOverflowPage (p : Page) : Bool := p.pdSpecial == blcksz && p.pdSpecial != pdNodeSpecialOffset

/-- `read_adj_header`: none when the header lies outside the special area. -/
def readAdjHeader (p : Page) (idx : Nat) : Option NodeAdjHeader := p.special[idx]?

/-- `write_adj_header`. -/
def writeAdjHeader (p : Page) (idx : Nat) (hdr : NodeAdjHeader) : Page := { p with special := p.special.set idx hdr }

/-- No line pointer of the page is unused. -/
def Page.AllUsed (p : Page) : Prop := ∀ i ∈ p.linp, i.lpFlags ≠ .unused

/-! ## PostgreSQL's page routines -/

/-- `PageAddItemExtended`, with the offset asked for (none when any will do) and `PAI_OVERWRITE`, and
`PageRepairFragmentation`, as far as the code relies on them. -/
structure PgSys where
  pageAddItem : Page → Item → Option Nat → Bool → Option (Nat × Page)
  pageRepairFragmentation : Page → Page
  add_fits : ∀ p it, p.AllUsed → p.pdLower + itemIdSize + maxAlign it.len ≤ p.pdUpper →
    pageAddItem p it none false = some (p.linp.length + 1, p.push it)
  add_full : ∀ p it, p.AllUsed → ¬p.pdLower + itemIdSize + maxAlign it.len ≤ p.pdUpper →
    pageAddItem p it none false = none
  add_at_end : ∀ p it, p.AllUsed → p.pdLower + itemIdSize + maxAlign it.len ≤ p.pdUpper →
    pageAddItem p it (some (p.linp.length + 1)) true = some (p.linp.length + 1, p.push it)
  repair_linp : ∀ p, p.AllUsed → (pageRepairFragmentation p).linp = p.linp
  repair_special : ∀ p, (pageRepairFragmentation p).special = p.special
  repair_upper : ∀ p, p.AllUsed → (pageRepairFragmentation p).pdUpper ≤ p.pdSpecial

/-- Where `PageAddItemExtended` puts an item, as an index of the line pointers: the first unused one, else behind the last; an
offset asked for is taken when it is the next one, or unused and to be overwritten. -/
def postgresSlot (p : Page) (off : Option Nat) (overwrite : Bool) : Option Nat :=
  match off with
  | none => some (p.linp.findIdx (fun i => decide (i.lpFlags = .unused)))
  | some o =>
    if o = p.linp.length + 1 then some (o - 1)
    else if o ≠ 0 ∧ o ≤ p.linp.length ∧ overwrite ∧ (p.itemId o).lpFlags = .unused then some (o - 1)
    else none

/-- `PageAddItemExtended` as PostgreSQL runs it; refused when there is no line pointer for the item or no room. -/
def postgresAddItem (p : Page) (it : Item) (off : Option Nat) (overwrite : Bool) : Option (Nat × Page) :=
  match postgresSlot p off overwrite with
  | none => none
  | some k =>
    let lower := if k = p.linp.length then p.pdLower + itemIdSize else p.pdLower
    if lower + maxAlign it.len ≤ p.pdUpper then
      let lp : ItemId := { lpFlags := .normal, item := it }
      some (k + 1, { p with
        pdUpper := p.pdUpper - maxAlign it.len,
        linp := if k = p.linp.length then p.linp ++ [lp] else p.linp.set k lp })
    else none

/-- `PageRepairFragmentation` as PostgreSQL runs it on line pointers with storage: `pd_upper` moves up to leave no gap between
the items, and unused line pointers at the end are dropped. -/
def postgresRepair (p : Page) : Page :=
  let linp := (p.linp.reverse.dropWhile (fun i => decide (i.lpFlags = .unused))).reverse
  { p with
    pdUpper := p.pdSpecial -
      ((linp.filter (fun i => decide (i.lpFlags ≠ .unused))).map (fun i => maxAlign i.item.len)).sum,
    linp := linp }

/-- On a page none of whose line pointers is unused a new item goes behind the last one. -/
theorem postgresSlot_of_allUsed (p : Page) (overwrite : Bool) (h : p.AllUsed) :
    postgresSlot p none overwrite = some p.linp.length := by
  simp only [postgresSlot, Option.some.injEq, List.findIdx_eq_length]
  intro i hi
  simpa using h i hi

/-- The page routines of PostgreSQL meet the laws. -/
def postgres : PgSys where
  pageAddItem := postgresAddItem
  pageRepairFragmentation := postgresRepair
  add_fits := by
    intro p it h hfit
    simp only [postgresAddItem, postgresSlot_of_allUsed p false h, if_true, hfit, Page.push]
  add_full := by
    intro p it h hfull
    simp only [postgresAddItem, postgresSlot_of_allUsed p false h, if_true, hfull, if_false]
  add_at_end := by
    intro p it _ hfit
    simp only [postgresAddItem, postgresSlot, if_true, Nat.add_sub_cancel, hfit, Page.push]
  repair_linp := by
    intro p h
    have hd : p.linp.reverse.dropWhile (fun i => decide (i.lpFlags = .unused)) = p.linp.reverse := by
      cases hr : p.linp.reverse with
      | nil => rfl
      | cons a l =>
        have ha : a ∈ p.linp := by
          rw [← List.mem_reverse, hr]
          exact List.mem_cons_self
        simp [h a ha]
    simp only [postgresRepair, hd, List.reverse_reverse]
  repair_special := fun _ => rfl
  repair_upper := fun _ _ => Nat.sub_le _ _

end PgEddy
