import PgEddy.NodeStore

/-!
# Sessions that update and delete nodes at the same time

`update_node` and `delete_node_by_id` look up the location of the node under a shared lock, release it, and write under the
exclusive lock of the block. Between the two steps other sessions run. `insert_node` is one step: nobody knows the new id yet.
-/

namespace PgEddy

/-- A call between its two steps: what it has found, and the new labels and properties of an update or none for a delete. -/
structure PendingCall where
  xid : Xid
  nodeId : Int64
  blkno : Nat
  off : Nat
  adjSlotIdx : Nat
  update : Option (List Int32 × Bytes)
  deriving DecidableEq, Repr

/-- The store, and the call each session is in the middle of. -/
structure SessionState where
  store : Store
  pending : Nat → Option PendingCall

/-- A step of a session. -/
inductive SessionOp where
  | insertNode (xid : Xid) (nodeId : Int64) (labelIds : List Int32) (propBytes : Bytes)
  | findForUpdate (session : Nat) (xid : Xid) (cache : LocationCache) (nodeId : Int64) (newLabelIds : List Int32)
      (newPropBytes : Bytes)
  | findForDelete (session : Nat) (xid : Xid) (cache : LocationCache) (nodeId : Int64)
  | write (session : Nat)

namespace SessionState

/-- Nothing stored, no call under way. -/
def empty : SessionState := ⟨Store.empty, fun _ => none⟩

/-- Set the call a session is in the middle of. -/
def setPending (st : SessionState) (session : Nat) (p : Option PendingCall) : SessionState :=
  { st with pending := fun i => if i = session then p else st.pending i }

/-- The first step of a call: `find_node_location`. When it finds nothing or raises an error the call is over. -/
def find (st : SessionState) (session : Nat) (xid : Xid) (cache : LocationCache) (nodeId : Int64)
    (update : Option (List Int32 × Bytes)) : SessionState :=
  match findNodeLocation cache st.store.nodes nodeId with
  | .ok (some (blkno, off, adjSlotIdx)) => st.setPending session (some ⟨xid, nodeId, blkno, off, adjSlotIdx, update⟩)
  | _ => st

/-- The second step of a call, under the exclusive lock. -/
def writeCall (pg : PgSys) (s : Store) (p : PendingCall) : Store :=
  match p.update with
  | some (newLabelIds, newPropBytes) =>
    (updateNodeAt pg p.xid s p.nodeId newLabelIds newPropBytes p.blkno p.off p.adjSlotIdx).1
  | none => deleteNodeAt p.xid s p.blkno p.off

/-- The machine. A session starts a call only when it is in the middle of none. -/
def step (pg : PgSys) (st : SessionState) : SessionOp → Option SessionState
  | .insertNode xid nodeId labelIds propBytes =>
    some { st with store := (PgEddy.insertNode pg xid st.store nodeId labelIds propBytes).1 }
  | .findForUpdate session xid cache nodeId newLabelIds newPropBytes =>
    if (st.pending session).isSome then none
    else if maxLabelsPerNode < newLabelIds.length ∨ propInlineMax < newPropBytes.length then some st
    else some (st.find session xid cache nodeId (some (newLabelIds, newPropBytes)))
  | .findForDelete session xid cache nodeId =>
    if (st.pending session).isSome then none else some (st.find session xid cache nodeId none)
  | .write session =>
    match st.pending session with
    | none => none
    | some p => some ({ st with store := writeCall pg st.store p }.setPending session none)

end SessionState

end PgEddy
