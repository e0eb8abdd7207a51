import PgEddy.Vacuum
import PgEddy.Lib.Runs

/-!
# The graph store as a machine

The calls that change nodes and edges, one after the other, each with the transaction it runs in and the location cache of its
session. A call that raises an error still leaves the store it left; only a call that would touch memory outside the special
area of a page, which the code does not check, has no next state.
-/

namespace PgEddy

/-- A call on the graph store. -/
inductive GraphOp where
  | insertNode (xid : Xid) (nodeId : Int64) (labelIds : List Int32) (propBytes : Bytes)
  | updateNode (xid : Xid) (cache : LocationCache) (nodeId : Int64) (newLabelIds : List Int32) (newPropBytes : Bytes)
  | deleteNode (xid : Xid) (cache : LocationCache) (nodeId : Int64)
  | insertEdge (xid : Xid) (cache : LocationCache) (edgeId : Int64) (relTypeId : Int32) (srcNodeId tgtNodeId : Int64)
      (propBytes : Bytes)
  | deleteEdge (xid : Xid) (edgeId : Int64)

namespace GraphOp

/-- The transaction of a call. -/
def xid : GraphOp → Xid
  | .insertNode xid .. | .updateNode xid .. | .deleteNode xid .. | .insertEdge xid .. | .deleteEdge xid .. => xid

/-- The call itself: the store it leaves, and what it returns (true when it returns nothing) or raises. -/
def call (pg : PgSys) (s : Store) : GraphOp → Outcome Bool
  | .insertNode xid nodeId labelIds propBytes =>
    let (t, r) := PgEddy.insertNode pg xid s nodeId labelIds propBytes
    (t, r.map fun _ => true)
  | .updateNode xid cache nodeId newLabelIds newPropBytes =>
    PgEddy.updateNode pg xid cache s nodeId newLabelIds newPropBytes
  | .deleteNode xid cache nodeId => PgEddy.deleteNodeById xid cache s nodeId
  | .insertEdge xid cache edgeId relTypeId srcNodeId tgtNodeId propBytes =>
    let (t, r) := PgEddy.insertEdge pg xid cache s edgeId relTypeId srcNodeId tgtNodeId propBytes
    (t, r.map fun _ => true)
  | .deleteEdge xid edgeId => PgEddy.deleteEdge xid s edgeId

/-- The machine: the store after a call. -/
def step (pg : PgSys) (s : Store) (op : GraphOp) : Option Store :=
  match op.call pg s with
  | (_, .error .outOfPage) => none
  | (t, _) => some t

/-- The call is accepted: it raises no error. -/
def Accepted (pg : PgSys) (s : Store) (op : GraphOp) : Prop := ∃ b, (op.call pg s).2 = .ok b

end GraphOp

end PgEddy
