import PgEddy.Graph

/-!
# Histories of transactions

Transactions begin, call the graph store and end, in any interleaving. Storage calls take effect at once, whatever becomes of
the transaction; only the status of its id tells whether it has committed.
-/

namespace PgEddy

/-- The transactions so far and the store. -/
structure HistoryState where
  xact : XactState
  store : Store

/-- A step of a history. -/
inductive HistoryOp where
  | begin
  | commit (xid : Xid)
  | abort (xid : Xid)
  | call (op : GraphOp)
  | updateEdgeProps (xid : Xid) (edgeId : Int64) (newPropBytes : Bytes)

namespace HistoryState

/-- The start of a history on a given store. -/
def start (s : Store) : HistoryState := ⟨XactState.init, s⟩

/-- The machine. Only a running transaction calls the store or ends. -/
def step (pg : PgSys) (h : HistoryState) : HistoryOp → Option HistoryState
  | .begin => some { h with xact := h.xact.begin }
  | .commit xid => if h.xact.running xid then some { h with xact := h.xact.finish xid .committed } else none
  | .abort xid => if h.xact.running xid then some { h with xact := h.xact.finish xid .aborted } else none
  | .call op => if h.xact.running op.xid then (op.step pg h.store).map (fun t => { h with store := t }) else none
  | .updateEdgeProps xid edgeId newPropBytes =>
    if h.xact.running xid then
      some { h with store := (PgEddy.updateEdgeProps (h.xact.backend xid) h.store edgeId newPropBytes).1 }
    else none

end HistoryState

end PgEddy
