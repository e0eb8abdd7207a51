import PgEddy.Page

/-!
# Transactions and snapshots

What PostgreSQL's transaction manager answers to the storage code. Transaction ids are handed out in order and never reused;
a transaction runs, then commits or aborts, once. A snapshot is taken at one moment and names the transactions that had not
finished by then: those still to come (`xmax`) and those running (`xip`).
-/

namespace PgEddy

/-- How far a transaction has come. -/
inductive XactStatus where
  | inProgress | committed | aborted
  deriving DecidableEq, Repr

/-- The transactions so far: the next id to hand out, and the status of each id handed out. -/
structure XactState where
  nextXid : Xid
  status : Xid → XactStatus

/-- No transaction has run; the first normal id is 3. -/
def XactState.init : XactState := { nextXid := 3, status := fun _ => .inProgress }

/-- `GetNewTransactionId`: the next transaction begins. -/
def XactState.begin (x : XactState) : XactState :=
  { nextXid := x.nextXid + 1, status := fun t => if t = x.nextXid then .inProgress else x.status t }

/-- A transaction ends. -/
def XactState.finish (x : XactState) (xid : Xid) (st : XactStatus) : XactState :=
  { x with status := fun t => if t = xid then st else x.status t }

/-- A transaction has begun and has not ended. -/
def XactState.running (x : XactState) (xid : Xid) : Bool :=
  decide (3 ≤ xid ∧ xid < x.nextXid) && x.status xid == .inProgress

/-- The session that runs the storage code: its own transaction (`TransactionIdIsCurrentTransactionId`) and what the commit log
answers at this moment (`TransactionIdDidCommit`). -/
structure Backend where
  xid : Xid
  didCommit : Xid → Bool

/-- `TransactionIdIsCurrentTransactionId`. -/
def Backend.isCurrent (be : Backend) (xid : Xid) : Bool := xid == be.xid

/-- The session of a transaction at a moment of a history. -/
def XactState.backend (x : XactState) (xid : Xid) : Backend :=
  { xid := xid, didCommit := fun t => decide (3 ≤ t ∧ t < x.nextXid) && x.status t == .committed }

/-- An MVCC snapshot. -/
structure Snapshot where
  xmax : Xid
  xip : List Xid
  deriving DecidableEq, Repr

/-- `GetSnapshotData`, for a session of transaction `me`, which is not in its own list. -/
def XactState.snapshot (x : XactState) (me : Xid) : Snapshot :=
  { xmax := x.nextXid, xip := (List.range x.nextXid).filter (fun t => x.running t && t != me) }

/-- `XidInMVCCSnapshot`: the transaction had not finished when the snapshot was taken. -/
def xidInMVCCSnapshot (xid : Xid) (s : Snapshot) : Bool := decide (s.xmax ≤ xid) || s.xip.contains xid

end PgEddy
