import PgEddy.Xact
import PgEddy.Lib.Runs

/-!
# The ids of names

`ensure_label` and `ensure_prop_key` of `catalog/labels.rs`: the registries give every label and every property key an id, and
every session has a cache of its own from names to ids. A registry is a table, so a rollback takes back what the transaction has
registered; the caches are cleared by `cypher` only.
-/

namespace PgEddy

/-- The two kinds of names that have a cache from names to ids. -/
inductive NameKind where
  | label | propKey
  deriving DecidableEq, Repr

/-- A row of `label_registry` or `property_key_registry`, and the transaction that inserted it. -/
structure RegistryRow where
  id : Nat
  name : String
  xmin : Xid
  deriving DecidableEq, Repr

/-- A registry: its rows, dead ones included, and the last value of its identity column. -/
structure Registry where
  rows : List RegistryRow
  lastId : Nat
  deriving DecidableEq, Repr

/-- `INSERT .. ON CONFLICT (name) DO UPDATE .. RETURNING`, by a transaction: the row that is there keeps its id. The identity
column is an `INT`; every call takes a value of it. None when the call waits for another transaction that has inserted the name,
or when there is no further value. -/
def Registry.upsert (r : Registry) (x : XactState) (xid : Xid) (name : String) : Option (Registry × Nat) :=
  if r.lastId + 1 < 2 ^ 31 then
    match r.rows.find? (fun row => row.name == name && x.status row.xmin != .aborted) with
    | some row =>
      if row.xmin = xid ∨ x.status row.xmin = .committed then some ({ r with lastId := r.lastId + 1 }, row.id) else none
    | none => some (⟨r.rows ++ [⟨r.lastId + 1, name, xid⟩], r.lastId + 1⟩, r.lastId + 1)
  else none

/-- `LABEL_ID_CACHE` and `PROP_KEY_ID_CACHE`. -/
abbrev NameCache : Type := NameKind → String → Option Nat

/-- A name and the id that `ensure_label` or `ensure_prop_key` has returned for it. -/
structure NameId where
  kind : NameKind
  name : String
  id : Nat
  deriving DecidableEq, Repr

/-- A session: its transaction, its caches, and the ids that the call it is in has looked up. -/
structure NameSession where
  xid : Option Xid
  cache : NameCache
  lookedUp : List NameId

namespace NameSession

/-- A session that has just connected. -/
def new : NameSession := ⟨none, fun _ _ => none, []⟩

/-- `cache.borrow_mut().insert(name, id)`. -/
def cacheId (s : NameSession) (kind : NameKind) (name : String) (id : Nat) : NameSession :=
  { s with cache := fun k n => if k = kind ∧ n = name then some id else s.cache k n }

/-- `ensure_label` or `ensure_prop_key` has returned. -/
def use (s : NameSession) (kind : NameKind) (name : String) (id : Nat) : NameSession :=
  { s with lookedUp := ⟨kind, name, id⟩ :: s.lookedUp }

end NameSession

/-- A version of a node or an edge: the transaction that wrote it and the names it refers to by their ids. -/
structure NamedRecord where
  xid : Xid
  names : List NameId
  deriving DecidableEq, Repr

/-- The transactions, the registries, the sessions, and the versions of nodes and edges. -/
structure NameState where
  xact : XactState
  registry : NameKind → Registry
  sessions : List NameSession
  records : List NamedRecord

/-- What a session does: it begins or ends a transaction; it calls `cypher`, which clears the caches; in `create_node`,
`update_node`, `add_label`, `create_edge` or the query of `cypher` it looks up a label or a key, and at the end of the call writes
a version, which may keep names of versions it sees, or gives up. -/
inductive NameEvent where
  | begin (session : Nat)
  | commit (session : Nat)
  | abort (session : Nat)
  | cypher (session : Nat)
  | ensureLabel (session : Nat) (name : String)
  | ensurePropKey (session : Nat) (name : String)
  | write (session : Nat) (kept : List NameId)
  | giveUp (session : Nat)
  deriving DecidableEq, Repr

namespace NameState

/-- A new extension, to which sessions have connected. -/
def start (sessions : Nat) : NameState := ⟨.init, fun _ => ⟨[], 0⟩, List.replicate sessions .new, []⟩

/-- Replace a session. -/
def setSession (st : NameState) (i : Nat) (s : NameSession) : NameState := { st with sessions := st.sessions.set i s }

/-- Replace a registry. -/
def setRegistry (st : NameState) (kind : NameKind) (r : Registry) : NameState :=
  { st with registry := fun k => if k = kind then r else st.registry k }

/-- `ensure_label` and `ensure_prop_key`: the cached id, or that of the registry, which is then cached. -/
def ensureName (kind : NameKind) (st : NameState) (i : Nat) (name : String) : Option NameState := do
  let s ← st.sessions[i]?
  let xid ← s.xid
  match s.cache kind name with
  | some id => some (st.setSession i (s.use kind name id))
  | none =>
    let (r, id) ← (st.registry kind).upsert st.xact xid name
    some ((st.setRegistry kind r).setSession i ((s.cacheId kind name id).use kind name id))

/-- `ensure_label`. -/
def ensureLabel : NameState → Nat → String → Option NameState := ensureName .label

/-- `ensure_prop_key`. -/
def ensurePropKey : NameState → Nat → String → Option NameState := ensureName .propKey

/-- A transaction sees what it has written and what has been committed. -/
def sees (st : NameState) (xid writer : Xid) : Prop := writer = xid ∨ st.xact.status writer = .committed

instance (st : NameState) (xid writer : Xid) : Decidable (st.sees xid writer) := inferInstanceAs (Decidable (_ ∨ _))

/-- The machine. -/
def step (st : NameState) : NameEvent → Option NameState
  | .begin i => do
    let s ← st.sessions[i]?
    if s.xid = none then some ({ st with xact := st.xact.begin }.setSession i { s with xid := some st.xact.nextXid }) else none
  | .commit i => do
    let s ← st.sessions[i]?
    let xid ← s.xid
    some ({ st with xact := st.xact.finish xid .committed }.setSession i { s with xid := none, lookedUp := [] })
  | .abort i => do
    let s ← st.sessions[i]?
    let xid ← s.xid
    some ({ st with xact := st.xact.finish xid .aborted }.setSession i { s with xid := none, lookedUp := [] })
  | .cypher i => do
    let s ← st.sessions[i]?
    -- `clear_name_caches`
    some (st.setSession i { s with cache := fun _ _ => none })
  | .ensureLabel i name => st.ensureLabel i name
  | .ensurePropKey i name => st.ensurePropKey i name
  | .write i kept => do
    let s ← st.sessions[i]?
    let xid ← s.xid
    if ∀ u ∈ kept, ∃ r ∈ st.records, st.sees xid r.xid ∧ u ∈ r.names then
      some ({ st with records := ⟨xid, kept ++ s.lookedUp⟩ :: st.records }.setSession i { s with lookedUp := [] })
    else none
  | .giveUp i => do
    let s ← st.sessions[i]?
    some (st.setSession i { s with lookedUp := [] })

end NameState

end PgEddy
