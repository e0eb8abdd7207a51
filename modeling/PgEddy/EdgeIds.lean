import PgEddy.Db

/-!
# The ids of edges

`next_edge_id` of `catalog/labels.rs`: every session takes ids from a reservoir of its own, which it fills with a block of values
of `edge_id_seq`. The reservoir belongs to the session and outlives its statements and transactions. `clear` of `lib.rs` starts
the sequence again.
-/

namespace PgEddy

/-- `ID_BATCH_SIZE`. -/
def idBatchSize : Nat := 256

/-- How far a session is with the edge it creates: it creates none, the query of `next_edge_id` has returned some rows, or
`next_edge_id` has returned the id and the edge is not inserted yet. -/
inductive EdgeCreation where
  | idle
  | fetching (batch : List Nat)
  | allocated (edgeId : Nat)
  deriving DecidableEq, Repr

/-- A session: its `EDGE_ID_RESERVOIR` and the edge it creates. -/
structure EdgeSession where
  reservoir : List Nat
  creation : EdgeCreation
  deriving DecidableEq, Repr

namespace EdgeSession

/-- A session that has just connected. -/
def new : EdgeSession := ⟨[], .idle⟩

/-- `next_edge_id` up to its query: the id in front of the reservoir, or the query begins. -/
def nextEdgeId (s : EdgeSession) : EdgeSession :=
  match s.reservoir with
  | edgeId :: reservoir => ⟨reservoir, .allocated edgeId⟩
  | [] => ⟨[], .fetching []⟩

/-- The query returns a row. The last row ends it: the batch goes into the reservoir, and the id in front is returned. -/
def fetch (s : EdgeSession) (batch : List Nat) (value : Nat) : EdgeSession :=
  let batch := batch ++ [value]
  if batch.length < idBatchSize then { s with creation := .fetching batch }
  else nextEdgeId { s with reservoir := s.reservoir ++ batch }

/-- The query of `next_edge_id` is running. -/
def isFetching (s : EdgeSession) : Bool :=
  match s.creation with
  | .fetching _ => true
  | _ => false

end EdgeSession

/-- The last value of `edge_id_seq`, the sessions, and the ids of the live edges. -/
structure EdgeIdState where
  lastValue : Nat
  sessions : List EdgeSession
  live : List Nat
  deriving DecidableEq, Repr

/-- What happens next: a session starts to create an edge, its query fetches a value, it inserts the edge, or it gives up, be it
that the call fails or that its transaction is rolled back; an edge is deleted, or its insertion is rolled back; `clear` is
called; a session ends and another one takes its place. -/
inductive EdgeIdEvent where
  | createEdge (session : Nat)
  | nextval (session : Nat)
  | insertEdge (session : Nat)
  | giveUp (session : Nat)
  | removeEdge (edgeId : Nat)
  | clear
  | reconnect (session : Nat)
  deriving DecidableEq, Repr

namespace EdgeIdState

/-- A new extension, to which sessions have connected. -/
def start (sessions : Nat) : EdgeIdState := ⟨0, List.replicate sessions .new, []⟩

/-- Replace a session. -/
def setSession (st : EdgeIdState) (i : Nat) (s : EdgeSession) : EdgeIdState := { st with sessions := st.sessions.set i s }

/-- The machine. An event that cannot happen in a state has no next state. `clear` waits for the transactions that have called
`nextval`, whose lock on the sequence it needs. -/
def step (st : EdgeIdState) : EdgeIdEvent → Option EdgeIdState
  | .createEdge i => do
    let s ← st.sessions[i]?
    if s.creation = .idle then some (st.setSession i s.nextEdgeId) else none
  | .nextval i => do
    let s ← st.sessions[i]?
    match s.creation with
    | .fetching batch =>
      match PgEddy.nextval st.lastValue with
      | some value => some { st.setSession i (s.fetch batch value) with lastValue := value }
      -- the sequence has no further value: the query fails, and the call with it
      | none => some (st.setSession i { s with creation := .idle })
    | _ => none
  | .insertEdge i => do
    let s ← st.sessions[i]?
    match s.creation with
    | .allocated edgeId => some { st.setSession i { s with creation := .idle } with live := edgeId :: st.live }
    | _ => none
  | .giveUp i => do
    let s ← st.sessions[i]?
    some (st.setSession i { s with creation := .idle })
  | .removeEdge edgeId => some { st with live := st.live.erase edgeId }
  | .clear => if st.sessions.any EdgeSession.isFetching then none else some { st with lastValue := 0, live := [] }
  | .reconnect i => do
    let _ ← st.sessions[i]?
    some (st.setSession i .new)

end EdgeIdState

end PgEddy
