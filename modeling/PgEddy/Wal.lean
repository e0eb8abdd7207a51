import PgEddy.Vacuum

/-!
# Redo

`storage/wal.rs`: what recovery does with each record. A record with a full-page image restores the block from the image, and
the redo routine does nothing more; a record without one is redone on the block, if the block exists.
-/

namespace PgEddy

open ByteBuffer

/-- A page of zeros, as recovery leaves it between the end of a relation and a block it restores. -/
def zeroPage : Page := { pdUpper := 0, linp := [], special := [] }

/-- `XLogReadBufferForRedo` of a block with an image (BLK_RESTORED): the relation is extended up to the block. -/
def restoreBlock (rel : Relation) (blkno : Nat) (image : Page) : Relation :=
  (rel ++ List.replicate (blkno + 1 - rel.length) zeroPage).set blkno image

/-- The redo of an insert record on its block (BLK_NEEDS_REDO), `init` being the initialisation of a page not yet in use. -/
def redoInsert (pg : PgSys) (init : Page) (rel : Relation) (blkno off : Nat) (item : Item) : Except PgError Relation :=
  match rel[blkno]? with
  | none => .ok rel
  | some page =>
    let page := if page.pdUpper = 0 then init else page
    match pg.pageAddItem page item (some off) true with
    | none => .error (.nodeAddFailed off)
    | some (_, page') => .ok (modifyBlock rel blkno (fun _ => page'))

/-- The redo of a delete record on its block: only an LP_NORMAL line pointer is touched. -/
def redoDelete (rel : Relation) (blkno off : Nat) (xmax : Xid) : Relation :=
  modifyBlock rel blkno (fun page =>
    if (page.itemId off).lpFlags = .normal then page.modifyItem off (Item.mapHdr (·.setXmax xmax)) else page)

/-- `redo_node_insert`. -/
def redoNodeInsert (pg : PgSys) (rel : Relation) (blkno off : Nat) (item : Item) (overflow : Option (Nat × Page)) :
    Except PgError Relation := do
  let rel ← redoInsert pg initNodePage rel blkno off item
  match overflow with
  | none => return rel
  | some (ovfBlk, image) => return restoreBlock rel ovfBlk image

/-- `redo_adj_update`; an access outside the special area is undefined. -/
def redoAdjUpdate (rel : Relation) (blkno adjSlotIdx : Nat) (newAdj : NodeAdjHeader) : Except PgError Relation :=
  match rel[blkno]? with
  | none => .ok rel
  | some page =>
    match readAdjHeader page adjSlotIdx with
    | none => .error .outOfPage
    | some _ => .ok (writeAdjHeaderAt rel blkno adjSlotIdx newAdj)

/-- `rmgr_redo`: one record on the two relations. -/
def rmgrRedo (pg : PgSys) (nodes edges : Relation) : WalRecord → Except PgError (Relation × Relation)
  | .nodeInsert blkno off item overflow => (redoNodeInsert pg nodes blkno off item overflow).map (fun n => (n, edges))
  | .nodeDelete blkno off xmax => .ok (redoDelete nodes blkno off xmax, edges)
  | .nodeCompact blkno image => .ok (restoreBlock nodes blkno image, edges)
  | .edgeInsert blkno off item => (redoInsert pg initEdgePage edges blkno off item).map (fun e => (nodes, e))
  | .edgeDelete blkno off xmax => .ok (nodes, redoDelete edges blkno off xmax)
  | .adjUpdate blkno adjSlotIdx newAdj => (redoAdjUpdate nodes blkno adjSlotIdx newAdj).map (fun n => (n, edges))
  | .vacuumPage blkno offs => .ok (nodes, modifyBlock edges blkno (fun page => markDead page offs))

/-- Recovery: the records one after the other. -/
def replay (pg : PgSys) : Relation → Relation → List WalRecord → Except PgError (Relation × Relation)
  | nodes, edges, [] => .ok (nodes, edges)
  | nodes, edges, r :: rs => do
    let (nodes', edges') ← rmgrRedo pg nodes edges r
    replay pg nodes' edges' rs

end PgEddy
