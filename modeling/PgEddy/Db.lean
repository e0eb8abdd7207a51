import PgEddy.Executor
import PgEddy.Lib.Recorded
import PgEddy.Page

/-!
# The database that queries write

The nodes and relationships that a transaction sees, and the catalog tables beside them. The storage is taken at what its
calls promise: a node or a relationship is inserted, replaced or deleted, a relationship is refused when one of its nodes is
missing, and any call may be refused for a reason of its own (`World.refuses`). The pages below are not seen here.

A `Change` is one call on the storage with the upkeep of the catalog that the code does for it. Several parts of the code
create, update or delete nodes, and they do not all do the same upkeep.
-/

namespace PgEddy

/-! ## Tables -/

/-- A row of `prop_value_index`. The value stands for its text: different values are written differently. -/
structure PropIndexRow where
  label : String
  key : String
  value : Json
  nodeId : Int64
  deriving DecidableEq

inductive ConstraintKind where
  | unique
  | exists_
  deriving DecidableEq

/-- An error raised in PostgreSQL, which ends the statement wherever it comes from. -/
inductive Raised where
  | storage (e : PgError)
  | sequenceExhausted
  | uniqueViolation (label key : String) (existing : Int64) (value : Json)
  /-- A limit of the storage or of a table. -/
  | refused (message : String)
  deriving DecidableEq

/-- The text of an error the code raises. `jsonText` is `serde_json::to_string`. -/
def Raised.message (jsonText : Json → String) : Raised → Option String
  | .storage e => e.message
  | .uniqueViolation label key existing value => some
      (s!"ConstraintViolation: UNIQUE constraint on :{label}.{key} violated — " ++
        s!"node {existing} already has value {jsonText value}")
  | .refused message => some message
  | .sequenceExhausted => none

/-- The live nodes and relationships, the sequences that ids come from, and the tables of the catalog. Labels, types and
property keys go by their names. -/
structure Db where
  nodes : List (Int64 × NodeEntry) := []
  edges : List RelRecord := []
  nodeSeq : Nat := 0
  edgeSeq : Nat := 0
  labelIndex : List (String × Int64) := []
  edgeTypeSrc : List (String × Int64 × Int64) := []
  edgeTypeDst : List (String × Int64 × Int64) := []
  propIndexCatalog : List (String × String) := []
  propValueIndex : List PropIndexRow := []
  constraintCatalog : List (String × String × ConstraintKind) := []
  deriving DecidableEq

/-- Index rows that are written when the operator that collects them ends. -/
structure CatalogWriteBuffer where
  labelIndex : List (String × Int64) := []
  edgeTypeSrc : List (String × Int64 × Int64) := []
  edgeTypeDst : List (String × Int64 × Int64) := []
  deriving DecidableEq

/-- The database as a session has it: with the indexed properties of the labels it has looked up, which stay until the next
query, and the index rows that the running operator has collected. -/
structure Session where
  db : Db := {}
  indexedProps : Std.ExtTreeMap String (List String) := ∅
  buf : CatalogWriteBuffer := {}

/-! ## Stored properties -/

/-- A number as it is read back after storing: an integer that is not a signed one becomes a float. -/
def JsonNumber.stored (n : JsonNumber) : JsonNumber :=
  match n.asI64 with
  | some i => .ofI64 i
  | none => (n.asF64.bind JsonNumber.ofF64?).getD (.ofI64 0)

mutual

/-- A value as it is read back after storing. -/
def Json.stored : Json → Json
  | .number n => .number n.stored
  | .array items => .array (storedItems items)
  | .object fields => .object (storedFields fields)
  | v => v

def storedItems : List Json → List Json
  | [] => []
  | v :: items => v.stored :: storedItems items

def storedFields : List (String × Json) → List (String × Json)
  | [] => []
  | (k, v) :: fields => (k, v.stored) :: storedFields fields

end

/-- A property removed. -/
def removeKey (props : List (String × Json)) (key : String) : List (String × Json) := props.filter (·.1 ≠ key)

/-! ## Nodes and relationships -/

/-- The relationship starts or ends at the node. -/
def RelRecord.Touches (e : RelRecord) (nodeId : Int64) : Prop := e.source = nodeId ∨ e.target = nodeId

instance (e : RelRecord) (nodeId : Int64) : Decidable (e.Touches nodeId) :=
  inferInstanceAs (Decidable (e.source = nodeId ∨ e.target = nodeId))

namespace Db

def findNode (db : Db) (nodeId : Int64) : Option NodeEntry := db.nodes.lookup nodeId

def findEdge (db : Db) (edgeId : Int64) : Option RelRecord := db.edges.find? (·.edgeId = edgeId)

/-- The id that the sequence of nodes gave last. -/
def lastNodeId (db : Db) : Int64 := Int64.ofNat db.nodeSeq

/-- The id that the sequence of relationships gave last. -/
def lastEdgeId (db : Db) : Int64 := Int64.ofNat db.edgeSeq

/-- `insert_node`. -/
def insertNode (db : Db) (nodeId : Int64) (r : NodeEntry) : Db := { db with nodes := db.nodes ++ [(nodeId, r)] }

/-- `update_node`. -/
def setNode (db : Db) (nodeId : Int64) (r : NodeEntry) : Db :=
  { db with nodes := db.nodes.map fun n => if n.1 = nodeId then (nodeId, r) else n }

/-- `delete_node_by_id`. -/
def removeNode (db : Db) (nodeId : Int64) : Db := { db with nodes := db.nodes.filter (·.1 ≠ nodeId) }

/-- `insert_edge`, which looks both nodes up first. -/
def insertEdge (db : Db) (e : RelRecord) : Except PgError Db :=
  if (db.findNode e.source).isNone then .error (.sourceNotFound e.source)
  else if (db.findNode e.target).isNone then .error (.targetNotFound e.target)
  else .ok { db with edges := db.edges ++ [{ e with properties := storedFields e.properties }] }

/-- `update_edge_props`. -/
def updateEdgeProps (db : Db) (edgeId : Int64) (props : List (String × Json)) : Db :=
  { db with edges := db.edges.map fun e => if e.edgeId = edgeId then { e with properties := storedFields props } else e }

/-- `delete_edge` and the rows of the relationship in `edge_type_src` and `edge_type_dst`. -/
def removeEdge (db : Db) (edgeId : Int64) : Db :=
  { db with
    edges := db.edges.filter (·.edgeId ≠ edgeId)
    edgeTypeSrc := db.edgeTypeSrc.filter (·.2.2 ≠ edgeId)
    edgeTypeDst := db.edgeTypeDst.filter (·.2.2 ≠ edgeId) }

/-! ### The label index -/

def addLabelRows (db : Db) (rows : List (String × Int64)) : Db := { db with labelIndex := db.labelIndex ++ rows }

/-- The rows of a node are deleted. -/
def dropLabelRows (db : Db) (nodeId : Int64) : Db := { db with labelIndex := db.labelIndex.filter (·.2 ≠ nodeId) }

/-! ### The property index -/

/-- `index_node_delete`. -/
def indexNodeDelete (db : Db) (nodeId : Int64) : Db :=
  { db with propValueIndex := db.propValueIndex.filter (·.nodeId ≠ nodeId) }

/-- The properties of a label that an index is registered for. -/
def indexedPropsOf (db : Db) (label : String) : List String :=
  (db.propIndexCatalog.filter (·.1 = label)).map (·.2)

/-- The index row of a property of a node, if it has the property and it is not null. -/
def indexRow? (label key : String) (nodeId : Int64) (props : List (String × Json)) : Option PropIndexRow :=
  match props.lookup key with
  | none => none
  | some .null => none
  | some v => some ⟨label, key, v, nodeId⟩

/-- `has_property_index`. -/
def hasPropertyIndex (db : Db) (label key : String) : Bool := (label, key) ∈ db.propIndexCatalog

/-- `create_property_index`: the index is registered, and filled anew from the nodes that `label_index` has for the label. -/
def createPropertyIndex (db : Db) (label key : String) : Db :=
  let nodeIds := (db.labelIndex.filter (·.1 = label)).map (·.2)
  let rows := nodeIds.filterMap fun nid => (db.findNode nid).bind fun r => indexRow? label key nid r.properties
  { db with
    propIndexCatalog := if (label, key) ∈ db.propIndexCatalog then db.propIndexCatalog else db.propIndexCatalog ++ [(label, key)]
    propValueIndex := (db.propValueIndex.filter fun row => ¬(row.label = label ∧ row.key = key)) ++ rows }

/-- `drop_property_index`. -/
def dropPropertyIndex (db : Db) (label key : String) : Db :=
  if (label, key) ∈ db.propIndexCatalog then
    { db with
      propIndexCatalog := db.propIndexCatalog.filter (· ≠ (label, key))
      propValueIndex := db.propValueIndex.filter fun row => ¬(row.label = label ∧ row.key = key) }
  else db

/-! ### Constraints -/

/-- `create_constraint`. -/
def createConstraint (db : Db) (label key : String) (kind : ConstraintKind) : Db :=
  if (label, key, kind) ∈ db.constraintCatalog then db
  else { db with constraintCatalog := db.constraintCatalog ++ [(label, key, kind)] }

/-- `drop_constraint`. -/
def dropConstraint (db : Db) (label key : String) (kind : ConstraintKind) : Db :=
  { db with constraintCatalog := db.constraintCatalog.filter (· ≠ (label, key, kind)) }

/-- `enforce_unique_on_insert`: another node that the property index has under the same value. -/
def uniqueClash (db : Db) (label key : String) (value : Json) (nodeId : Int64) : Option Int64 :=
  (db.propValueIndex.find? fun row =>
    row.label = label && row.key = key && row.value = value && row.nodeId ≠ nodeId).map (·.nodeId)

/-- The first violation that the checks of a new node find, in the order of its labels and properties. -/
def uniqueViolation (db : Db) (nodeId : Int64) (labels : List String) (props : List (String × Json)) : Option Raised :=
  labels.findSome? fun label => props.findSome? fun (key, value) =>
    if (label, key, ConstraintKind.unique) ∈ db.constraintCatalog ∧ value ≠ .null then
      (db.uniqueClash label key value nodeId).map fun existing => .uniqueViolation label key existing value
    else none

end Db

/-! ## Sessions -/

namespace Session

/-- A change of the database that leaves the rest. -/
def onDb (s : Session) (f : Db → Db) : Session := { s with db := f s.db }

/-- The indexed properties of a label: as they were when the session looked them up, or looked up now. -/
def lookUpIndexed (s : Session) (label : String) : List String × Session :=
  match s.indexedProps[label]? with
  | some props => (props, s)
  | none =>
    let props := s.db.indexedPropsOf label
    (props, { s with indexedProps := s.indexedProps.insert label props })

/-- `index_node_insert`. -/
def indexNodeInsert (nodeId : Int64) (props : List (String × Json)) : List String → Session → Session
  | [], s => s
  | label :: labels, s =>
    let (indexed, s) := s.lookUpIndexed label
    let rows := indexed.filterMap fun key => Db.indexRow? label key nodeId props
    indexNodeInsert nodeId props labels (s.onDb fun db => { db with propValueIndex := db.propValueIndex ++ rows })

/-- `index_node_update`. -/
def indexNodeUpdate (nodeId : Int64) (labels : List String) (props : List (String × Json)) (s : Session) : Session :=
  indexNodeInsert nodeId props labels (s.onDb (·.indexNodeDelete nodeId))

end Session

/-! ## Changes -/

/-- The code that creates a node: `create_node`, a node of a `CREATE` pattern, or a node that a relationship of the pattern
leads to. -/
inductive CreatePath where
  | api
  | pattern
  | destination
  deriving DecidableEq

/-- The code that deletes a node: `delete_node`, `detach_delete_node`, or `DELETE` of a node, of a node with `DETACH`, and
of a path. -/
inductive DeletePath where
  | api
  | apiDetach
  | node
  | detach
  | path
  deriving DecidableEq

/-- One call on the storage with the upkeep of the catalog around it. -/
inductive Change where
  | createNode (via : CreatePath) (labels : List String) (props : List (String × Json))
  | createEdge (api : Bool) (relType : String) (source target : Int64) (props : List (String × Json))
  /-- `update_node` of the API. -/
  | updateNode (nodeId : Int64) (labels : List String) (props : List (String × Json))
  /-- `SET` of properties. -/
  | setProps (nodeId : Int64) (props : List (String × Json))
  /-- `REMOVE` of a property. -/
  | removeProp (nodeId : Int64) (key : String)
  /-- `add_label` and `SET` of labels. -/
  | addLabels (nodeId : Int64) (labels : List String)
  /-- `remove_label` and `REMOVE` of labels. -/
  | removeLabels (nodeId : Int64) (labels : List String)
  | setEdgeProps (edgeId : Int64) (props : List (String × Json))
  | deleteEdge (edgeId : Int64)
  | deleteNode (via : DeletePath) (nodeId : Int64)
  /-- The collected index rows are written. -/
  | flush
  /-- The collected index rows are lost: the operator that collected them has failed. -/
  | abandon
  | createIndex (label key : String)
  | dropIndex (label key : String)
  | createConstraint (label key : String) (kind : ConstraintKind)
  | dropConstraint (label key : String) (kind : ConstraintKind)
  | clear
  /-- A query begins: what the session knows of the property index is forgotten. -/
  | beginQuery

/-- How a statement stops. -/
inductive Stop where
  /-- An error of the executor, or a panic. -/
  | exec (f : Failure)
  | pg (e : Raised)
  deriving DecidableEq

/-- What reads see of the database. -/
structure Reads (db : Db) (G : Graph) : Prop where
  scanNodes : G.scanNodes.Perm (db.nodes.map (·.1))
  findNode : ∀ nodeId, G.findNode nodeId = db.findNode nodeId
  findEdge : ∀ edgeId, G.findEdge edgeId = db.findEdge edgeId
  labelIndex : ∀ label, ((G.labelIndex label).getD []).Perm ((db.labelIndex.filter (·.1 = label)).map (·.2))
  follow_out : ∀ nodeId e, e ∈ G.adjacencyFollow nodeId .out ↔ e ∈ db.edges ∧ e.source = nodeId
  follow_in : ∀ nodeId e, e ∈ G.adjacencyFollow nodeId .in_ ↔ e ∈ db.edges ∧ e.target = nodeId
  follow_both : ∀ nodeId e, e ∈ G.adjacencyFollow nodeId .both ↔ e ∈ db.edges ∧ e.Touches nodeId
  lookupNodes : ∀ label key value, (G.lookupNodes label key value).Perm
    ((db.propValueIndex.filter fun row => row.label = label ∧ row.key = key ∧ row.value = value).map (·.nodeId))

/-- Evaluation over the values of one calendar: what an `Engine` is beside it. -/
structure EngineOn (ch : Chrono) where
  temporalGetProperty : TemporalValue ch → String → Value ch
  durationGetProperty : CypherDuration → String → Value ch
  tryParseTemporalStr : String → Exec (Option (TemporalValue ch))
  compareDeep : Value ch → CmpOp → Value ch → Exec (Option Bool)
  evalArith : Value ch → ArithOp → Value ch → Exec (Value ch)
  regexp : String → String → Bool
  evalFunction : String → List (Option String) → Ask ch
  shortestPath : Bool → Pattern → Row ch → Params → Exec (Value ch)
  patternComprehension : Option String → Pattern → Option Expr → Expr → Row ch → Params → Exec (Value ch)
  existsRow : Query → Row ch → Params → Exec Bool

def EngineOn.engine {ch : Chrono} (x : EngineOn ch) : Engine :=
  { x with ch := ch }

/-- What the storage and the rest of the program decide: what reads of a database see, in what order; how expressions are
evaluated over it; and which changes are refused, by a limit of the storage or of a table. -/
structure World (ch : Chrono) where
  graph : Db → Graph
  reads : ∀ db, Reads db (graph db)
  engine : Graph → EngineOn ch
  refuses : Session → Change → Option String

/-- Reads of a database in the order of its tables. -/
def Db.graph (db : Db) : Graph where
  scanNodes := db.nodes.map (·.1)
  labelIndex label := some ((db.labelIndex.filter (·.1 = label)).map (·.2))
  findNode := db.findNode
  findEdge := db.findEdge
  adjacencyFollow nodeId direction := db.edges.filter fun e => match direction with
    | .out => e.source = nodeId
    | .in_ => e.target = nodeId
    | .both => e.source = nodeId || e.target = nodeId
  lookupNodes label key value :=
    (db.propValueIndex.filter fun row => row.label = label ∧ row.key = key ∧ row.value = value).map (·.nodeId)

theorem Db.graph_reads (db : Db) : Reads db db.graph where
  scanNodes := .rfl
  findNode _ := rfl
  findEdge _ := rfl
  labelIndex _ := .rfl
  follow_out nodeId e := by simp [Db.graph]
  follow_in nodeId e := by simp [Db.graph]
  follow_both nodeId e := by simp [Db.graph, RelRecord.Touches]
  lookupNodes _ _ _ := .rfl

/-- A world whose expressions have no functions, and that refuses nothing. -/
def World.plain : World ⟨Unit, Unit, fun _ => none, fun _ _ _ _ => none⟩ where
  graph := Db.graph
  reads := Db.graph_reads
  engine _ :=
    { temporalGetProperty := fun _ _ => .null
      durationGetProperty := fun _ _ => .null
      tryParseTemporalStr := fun _ => .ok none
      compareDeep := fun _ _ _ => .ok none
      evalArith := fun _ _ _ => .ok .null
      regexp := fun _ _ => false
      evalFunction := fun _ _ => .done (.ok .null)
      shortestPath := fun _ _ _ _ => .ok .null
      patternComprehension := fun _ _ _ _ _ _ => .ok .null
      existsRow := fun _ _ _ => .ok false }
  refuses _ _ := none

/-- `nextval`: the next id of a sequence, if there is one. -/
def nextval (seq : Nat) : Option Nat := if seq + 1 < 2 ^ 63 then some (seq + 1) else none

namespace Change

/-- A new node with the id the sequence has just given, and what its code does around it. -/
def createNodeRun (via : CreatePath) (labels : List String) (props : List (String × Json)) (s : Session) :
    Session × Except Stop Unit :=
  let nodeId := s.db.lastNodeId
  let rows := labels.map (·, nodeId)
  let s := s.onDb (·.insertNode nodeId ⟨labels, storedFields props⟩)
  match via with
  | .api => (Session.indexNodeInsert nodeId props labels (s.onDb (·.addLabelRows rows)), .ok ())
  | .destination => ({ s with buf := { s.buf with labelIndex := s.buf.labelIndex ++ rows } }, .ok ())
  | .pattern =>
    let s := { s with buf := { s.buf with labelIndex := s.buf.labelIndex ++ rows } }
    let s := Session.indexNodeInsert nodeId props labels s
    match s.db.uniqueViolation nodeId labels props with
    | some e => (s, .error (.pg e))
    | none => (s, .ok ())

/-- A new relationship with the id the sequence has just given, and its rows in the catalog, written or collected. -/
def createEdgeRun (api : Bool) (relType : String) (source target : Int64) (props : List (String × Json)) (s : Session) :
    Session × Except Stop Unit :=
  let edgeId := s.db.lastEdgeId
  match s.db.insertEdge ⟨edgeId, relType, source, target, props⟩ with
  | .error e => (s, .error (.pg (.storage e)))
  | .ok db =>
    if api then
      ({ s with db := { db with
          edgeTypeSrc := db.edgeTypeSrc ++ [(relType, source, edgeId)]
          edgeTypeDst := db.edgeTypeDst ++ [(relType, target, edgeId)] } }, .ok ())
    else
      ({ s with
          db := db
          buf := { s.buf with
            edgeTypeSrc := s.buf.edgeTypeSrc ++ [(relType, source, edgeId)]
            edgeTypeDst := s.buf.edgeTypeDst ++ [(relType, target, edgeId)] } }, .ok ())

/-- A change of a node that is there. Without it nothing happens. -/
def onNode (nodeId : Int64) (f : NodeEntry → Session → Session) (s : Session) : Session :=
  match s.db.findNode nodeId with
  | some r => f r s
  | none => s

/-- The labels that the node does not have yet, each once. -/
def newLabels (labels : List String) (r : NodeEntry) : List String :=
  labels.foldl (fun new l => if l ∈ r.labels ++ new then new else new ++ [l]) []

/-- `delete_node_by_id` and the upkeep of its code. The API does it for a node that is there. -/
def deleteNodeRun (via : DeletePath) (nodeId : Int64) (s : Session) : Session :=
  match via with
  | .api | .apiDetach => onNode nodeId (fun _ s =>
      s.onDb fun db => ((db.removeNode nodeId).dropLabelRows nodeId).indexNodeDelete nodeId) s
  | .node | .detach | .path => s.onDb fun db => (db.removeNode nodeId).dropLabelRows nodeId

/-- `CatalogWriteBuffer::flush`. -/
def flushRun (s : Session) : Session :=
  { s with
    db := { s.db with
      labelIndex := s.db.labelIndex ++ s.buf.labelIndex
      edgeTypeSrc := s.db.edgeTypeSrc ++ s.buf.edgeTypeSrc
      edgeTypeDst := s.db.edgeTypeDst ++ s.buf.edgeTypeDst }
    buf := {} }

/-- `clear`: the tables of the storage and of the catalog are emptied, all but those of the property index and of the
constraints, and the sequences start again. -/
def clearRun (db : Db) : Db :=
  { propIndexCatalog := db.propIndexCatalog, propValueIndex := db.propValueIndex,
    constraintCatalog := db.constraintCatalog }

/-- The effect of a change that is not refused. -/
def run (s : Session) : Change → Session × Except Stop Unit
  | .createNode via labels props =>
    match nextval s.db.nodeSeq with
    | none => (s, .error (.pg .sequenceExhausted))
    | some seq => createNodeRun via labels props (s.onDb fun db => { db with nodeSeq := seq })
  | .createEdge api relType source target props =>
    match nextval s.db.edgeSeq with
    | none => (s, .error (.pg .sequenceExhausted))
    | some seq => createEdgeRun api relType source target props (s.onDb fun db => { db with edgeSeq := seq })
  | .updateNode nodeId labels props =>
    (onNode nodeId (fun _ s =>
      Session.indexNodeUpdate nodeId labels props
        (s.onDb fun db => ((db.setNode nodeId ⟨labels, storedFields props⟩).dropLabelRows nodeId).addLabelRows (labels.map (·, nodeId)))) s,
      .ok ())
  | .setProps nodeId props =>
    (onNode nodeId (fun r s =>
      Session.indexNodeUpdate nodeId r.labels props (s.onDb (·.setNode nodeId ⟨r.labels, storedFields props⟩))) s, .ok ())
  | .removeProp nodeId key =>
    (onNode nodeId (fun r s =>
      s.onDb (·.setNode nodeId ⟨r.labels, storedFields (removeKey r.properties key)⟩)) s, .ok ())
  | .addLabels nodeId labels =>
    (onNode nodeId (fun r s => s.onDb fun db =>
      (db.addLabelRows ((newLabels labels r).map (·, nodeId))).setNode nodeId
        ⟨r.labels ++ newLabels labels r, r.properties⟩) s, .ok ())
  | .removeLabels nodeId labels =>
    (onNode nodeId (fun r s => s.onDb fun db =>
      { db with labelIndex := db.labelIndex.filter fun row => ¬(row.1 ∈ labels ∧ row.2 = nodeId) }.setNode nodeId
        ⟨r.labels.filter (· ∉ labels), r.properties⟩) s, .ok ())
  | .setEdgeProps edgeId props => (s.onDb (·.updateEdgeProps edgeId props), .ok ())
  | .deleteEdge edgeId => (s.onDb (·.removeEdge edgeId), .ok ())
  | .deleteNode via nodeId => (deleteNodeRun via nodeId s, .ok ())
  | .flush => (flushRun s, .ok ())
  | .abandon => ({ s with buf := {} }, .ok ())
  | .createIndex label key => (s.onDb (·.createPropertyIndex label key), .ok ())
  | .dropIndex label key => (s.onDb (·.dropPropertyIndex label key), .ok ())
  | .createConstraint label key kind => (s.onDb (·.createConstraint label key kind), .ok ())
  | .dropConstraint label key kind => (s.onDb (·.dropConstraint label key kind), .ok ())
  | .clear => (s.onDb clearRun, .ok ())
  | .beginQuery => ({ s with indexedProps := ∅ }, .ok ())

/-- A change, refused or taken. -/
def apply {ch : Chrono} (W : World ch) (c : Change) (s : Session) : Session × Except Stop Unit :=
  match W.refuses s c with
  | some message => (s, .error (.pg (.refused message)))
  | none => c.run s

end Change

end PgEddy
