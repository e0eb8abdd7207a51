import PgEddy.Xact

/-!
# The store: two relations and the log

Nodes and edges live in two relations; every change is logged. A storage call takes the store to the store it leaves and to what
it returns or the error it raises; what a call wrote before it raised an error stays written, since an abort of the transaction
does not undo it.
-/

namespace PgEddy

/-- A relation: its blocks, block 0 first. -/
abbrev Relation : Type := List Page

/-- The WAL records of the code. A record that forces a full-page image carries the page. The relation of a block is that of the
kind of record; `VACUUM_PAGE` is written for edge pages only. -/
inductive WalRecord where
  | nodeInsert (blkno off : Nat) (item : Item) (overflow : Option (Nat × Page))
  | nodeDelete (blkno off : Nat) (xmax : Xid)
  | nodeCompact (blkno : Nat) (image : Page)
  | edgeInsert (blkno off : Nat) (item : Item)
  | edgeDelete (blkno off : Nat) (xmax : Xid)
  | adjUpdate (blkno adjSlotIdx : Nat) (newAdj : NodeAdjHeader)
  | vacuumPage (blkno : Nat) (deadOffsets : List Nat)
  deriving DecidableEq, Repr

/-- The node relation, the edge relation and the WAL, oldest record first. -/
structure Store where
  nodes : Relation
  edges : Relation
  wal : List WalRecord
  deriving DecidableEq, Repr

/-- Both relations right after `CREATE EXTENSION`: no block. -/
def Store.empty : Store := ⟨[], [], []⟩

/-- Append a record to the WAL. -/
def Store.log (s : Store) (r : WalRecord) : Store := { s with wal := s.wal ++ [r] }

/-- The store a call leaves, and what it returns or raises. -/
abbrev Outcome (α : Type) : Type := Store × Except PgError α

/-- `NODE_LOCATION_CACHE`: the block and offset cached for a node id. -/
abbrev LocationCache : Type := Int64 → Option (Nat × Nat)

/-- The cache at the start of a statement that has not loaded it. -/
def LocationCache.empty : LocationCache := fun _ => none

/-- `ReadBufferExtended` of an existing block. -/
def readBuffer (rel : Relation) (blkno : Nat) : Except PgError Page :=
  match rel[blkno]? with
  | some page => .ok page
  | none => .error (.couldNotReadBlock blkno)

/-- `ReadBufferExtended` of a new block, initialised: the relation and the number of the block. -/
def extendRelation (rel : Relation) (page : Page) : Except PgError (Relation × Nat) :=
  if rel.length < maxBlocks then .ok (rel ++ [page], rel.length) else .error .cannotExtend

/-- Change one block of a relation. -/
def modifyBlock (rel : Relation) (blkno : Nat) (f : Page → Page) : Relation := List.modify rel blkno f

/-- The blocks of a relation with their numbers, block 0 first. -/
def blocks (rel : Relation) : List (Page × Nat) := List.zipIdx rel

end PgEddy
