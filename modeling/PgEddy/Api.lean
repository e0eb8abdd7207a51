import PgEddy.Lib.Runs
import PgEddy.Writer

/-!
# Calls and statements

The functions of the SQL interface that write, and queries, each run as a transaction of its own: what it has changed is
committed when it ends, and undone when it stops with an error.
-/

namespace PgEddy

open Recorded

variable {ch : Chrono} (W : World ch)

open Write

/-- `detach_delete_node`: the relationships of the node, then the node. -/
def detachDeleteNode (nodeId : Int64) : Write Unit := do
  (← incidentEdgeIds W nodeId).forM fun edgeId => change W (.deleteEdge edgeId)
  change W (.deleteNode .apiDetach nodeId)

/-- `delete_edge`. -/
def deleteEdgeApi (relId : Int64) : Write Unit := do
  let s ← get
  if (s.db.findEdge relId).isSome then change W (.deleteEdge relId)

/-- `add_label`. -/
def addLabelApi (nodeId : Int64) (label : String) : Write Unit := do
  let s ← get
  match s.db.findNode nodeId with
  | none => return
  | some r => if label ∈ r.labels then return else change W (.addLabels nodeId [label])

/-- `remove_label`. -/
def removeLabelApi (nodeId : Int64) (label : String) : Write Unit := do
  let s ← get
  match s.db.findNode nodeId with
  | none => return
  | some r => if label ∈ r.labels then change W (.removeLabels nodeId [label]) else return

/-- A call of the interface. -/
inductive Call (ch : Chrono) where
  | createNode (labels : List String) (props : List (String × Json))
  | updateNode (nodeId : Int64) (labels : List String) (props : List (String × Json))
  | deleteNode (nodeId : Int64)
  | detachDeleteNode (nodeId : Int64)
  | addLabel (nodeId : Int64) (label : String)
  | removeLabel (nodeId : Int64) (label : String)
  | createEdge (source target : Int64) (relType : String) (props : List (String × Json))
  | deleteEdge (relId : Int64)
  | createNodeIndex (label prop : String)
  | dropNodeIndex (label prop : String)
  | clear
  | cypher (plan : WritePlan ch) (params : Params)

/-- What a call runs. -/
def Call.program : Call ch → Write Unit
  | .createNode labels props => change W (.createNode .api labels props)
  | .updateNode nodeId labels props => change W (.updateNode nodeId labels props)
  | .deleteNode nodeId => change W (.deleteNode .api nodeId)
  | .detachDeleteNode nodeId => PgEddy.detachDeleteNode W nodeId
  | .addLabel nodeId label => addLabelApi W nodeId label
  | .removeLabel nodeId label => removeLabelApi W nodeId label
  | .createEdge source target relType props => change W (.createEdge true relType source target props)
  | .deleteEdge relId => deleteEdgeApi W relId
  | .createNodeIndex label prop => change W (.createIndex label prop)
  | .dropNodeIndex label prop => change W (.dropIndex label prop)
  | .clear => change W .clear
  | .cypher plan params => do
    change W .beginQuery
    let _ ← execWrite W plan none params

/-- A failed statement is undone. What it took from the sequences stays taken, and the session keeps what it has looked up. -/
def Session.rollback (before after : Session) : Session :=
  { db := { before.db with
      nodeSeq := max before.db.nodeSeq after.db.nodeSeq
      edgeSeq := max before.db.edgeSeq after.db.edgeSeq }
    indexedProps := after.indexedProps }

/-- The session after a call. -/
def Call.step (s : Session) (c : Call ch) : Option Session :=
  match Recorded.run (c.program W) s with
  | (.ok _, s', _) => some s'
  | (.error _, s', _) => some (s.rollback s')

/-- The changes that a call commits, each with the session it is made in. -/
def Call.changes (s : Session) (c : Call ch) : List (Change × Session) :=
  match Recorded.run (c.program W) s with
  | (.ok _, _, changes) => changes
  | (.error _, _, _) => []

/-- Every change that a call commits meets a condition. -/
def Call.Commits (P : Change × Session → Prop) (s : Session) (c : Call ch) : Prop := ∀ e ∈ c.changes W s, P e

instance (P : Change × Session → Prop) [DecidablePred P] (s : Session) (c : Call ch) : Decidable (c.Commits W P s) :=
  inferInstanceAs (Decidable (∀ e ∈ c.changes W s, P e))

/-! ## Statements over the plain world -/

namespace Sample

abbrev PlainCall := Call ⟨Unit, Unit, fun _ => none, fun _ _ _ _ => none⟩

def nodePattern (var : Option String) (label : String) (props : List (String × Expr)) : PatternElement :=
  .node ⟨var, [label], props, false⟩

/-- `CREATE (:A)-[:R]->(:B)` -/
def createPair : PlainCall :=
  .cypher (.createPattern (.read World.plain .singleRow)
    [⟨none, [nodePattern none "A" [], .relationship ⟨none, ["R"], .out, [], none⟩, nodePattern none "B" []]⟩]) ∅

/-- `MATCH (n:label)` -/
def matchLabel (label : String) : WritePlan ⟨Unit, Unit, fun _ => none, fun _ _ _ _ => none⟩ :=
  .read World.plain (.labelScan ⟨"n", some label, [], false, none⟩)

/-- `MATCH (n:label) DELETE n`, with `DETACH` or without. -/
def deleteAll (label : String) (detach : Bool) : PlainCall := .cypher (.deleteNodes (matchLabel label) [.var "n"] detach) ∅

end Sample

end PgEddy
