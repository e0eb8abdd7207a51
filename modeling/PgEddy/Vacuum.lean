import PgEddy.EdgeStore

/-!
# Vacuum

`storage/vacuum.rs` and `compact_node_page`: records whose deleter committed before the oldest transaction that may still look
at them are marked LP_DEAD; on a node page their adjacency headers are cleared and the page is compacted.
-/

namespace PgEddy

open ByteBuffer

/-- What vacuum asks PostgreSQL: `GetOldestNonRemovableTransactionId` and `TransactionIdDidCommit`. Ids do not wrap, so
`TransactionIdPrecedes` is their order. -/
structure VacuumHorizon where
  oldestXmin : Xid
  didCommit : Xid → Bool

/-- `VacuumStats`. -/
structure VacuumStats where
  deadNodes : Nat
  liveNodes : Nat
  deadEdges : Nat
  liveEdges : Nat
  deriving DecidableEq, Repr

/-- What vacuum makes of one offset: not counted (no LP_NORMAL record), live, or dead with the adjacency slot if there is one. -/
inductive VacuumVerdict where
  | skip
  | live
  | dead (adjSlotIdx : Option Nat)
  deriving DecidableEq, Repr

/-- A deleter is set and committed before the horizon. -/
def VacuumHorizon.removes (hz : VacuumHorizon) (hdr : HeapTupleHeader) : Bool :=
  !hdr.xmaxInvalid && hdr.xmax != invalidTransactionId && decide (hdr.xmax < hz.oldestXmin) && hz.didCommit hdr.xmax

/-- The body of the collecting loop at one offset. -/
def vacuumVerdict (hz : VacuumHorizon) (isNodePage : Bool) (page : Page) (off : Nat) : VacuumVerdict :=
  match page.itemId off with
  | ⟨.normal, .tuple hdr data⟩ =>
    if data.length < 1 then .skip
    else if hdr.xmaxInvalid then .live
    else if hz.removes hdr then
      .dead (if isNodePage ∧ nodeFixedDataSize ≤ data.length then some (adjSlotOf data) else none)
    else .live
  | _ => .skip

/-- The offsets the collecting loop finds dead. -/
def deadOffsets (hz : VacuumHorizon) (isNodePage : Bool) (page : Page) : List Nat :=
  page.offsets.filter (fun off => match vacuumVerdict hz isNodePage page off with | .dead _ => true | _ => false)

/-- The adjacency slots of the records the collecting loop finds dead. -/
def deadAdjSlots (hz : VacuumHorizon) (isNodePage : Bool) (page : Page) : List Nat :=
  page.offsets.filterMap (fun off => match vacuumVerdict hz isNodePage page off with | .dead slot => slot | _ => none)

/-- The count of live records of the collecting loop. -/
def liveCount (hz : VacuumHorizon) (isNodePage : Bool) (page : Page) : Nat :=
  page.offsets.countP (fun off => vacuumVerdict hz isNodePage page off = .live)

/-- Mark the offsets LP_DEAD that are still LP_NORMAL. The item stays where it is. -/
def markDead (page : Page) (offs : List Nat) : Page :=
  offs.foldl (fun p off => p.modify off (fun i => if i.lpFlags = .normal then { i with lpFlags := .dead } else i)) page

/-- The clearing loop of `compact_node_page`; none when a slot lies outside the special area. -/
def clearAdjHeaders (page : Page) : List Nat → Option Page
  | [] => some page
  | slot :: slots =>
    match readAdjHeader page slot with
    | none => none
    | some _ => clearAdjHeaders (writeAdjHeader page slot NodeAdjHeader.zero) slots

/-- `compact_node_page`. -/
def compactNodePage (pg : PgSys) (page : Page) (deadSlots : List Nat) : Option Page :=
  (clearAdjHeaders page deadSlots).map pg.pageRepairFragmentation

/-- One block of `vacuum_relation`: the page it leaves, its counts and what it logs. -/
def vacuumBlock (pg : PgSys) (hz : VacuumHorizon) (page : Page) (blkno : Nat) :
    Except PgError (Page × VacuumStats × List WalRecord) :=
  if isOverflowPage page then .ok (page, ⟨0, 0, 0, 0⟩, [])
  else
    let isNodePage := page.pdSpecial != blcksz
    let offs := deadOffsets hz isNodePage page
    let live := liveCount hz isNodePage page
    let stats : VacuumStats := if isNodePage then ⟨offs.length, live, 0, 0⟩ else ⟨0, 0, offs.length, live⟩
    if offs = [] then .ok (page, stats, [])
    else
      let marked := markDead page offs
      if isNodePage then
        match compactNodePage pg marked (deadAdjSlots hz isNodePage page) with
        | none => .error .outOfPage
        | some compacted => .ok (compacted, stats, [.nodeCompact blkno compacted])
      else .ok (marked, stats, [.vacuumPage blkno offs])

/-- The sum of two counts. -/
def VacuumStats.add (a b : VacuumStats) : VacuumStats :=
  ⟨a.deadNodes + b.deadNodes, a.liveNodes + b.liveNodes, a.deadEdges + b.deadEdges, a.liveEdges + b.liveEdges⟩

/-- The loop of `vacuum_relation` over the blocks. -/
def vacuumBlocks (pg : PgSys) (hz : VacuumHorizon) : List (Page × Nat) →
    Except PgError (Relation × VacuumStats × List WalRecord)
  | [] => .ok ([], ⟨0, 0, 0, 0⟩, [])
  | (page, blkno) :: rest => do
    let (page', stats, records) ← vacuumBlock pg hz page blkno
    let (rel', stats', records') ← vacuumBlocks pg hz rest
    return (page' :: rel', stats.add stats', records ++ records')

/-- `vacuum_relation`. -/
def vacuumRelation (pg : PgSys) (hz : VacuumHorizon) (rel : Relation) :
    Except PgError (Relation × VacuumStats × List WalRecord) :=
  vacuumBlocks pg hz (blocks rel)

/-- `vacuum_relation` on the node relation of the store. -/
def vacuumNodes (pg : PgSys) (hz : VacuumHorizon) (s : Store) : Outcome VacuumStats :=
  match vacuumRelation pg hz s.nodes with
  | .error e => (s, .error e)
  | .ok (nodes, stats, records) => ({ s with nodes := nodes, wal := s.wal ++ records }, .ok stats)

end PgEddy
