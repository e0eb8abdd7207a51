import PgEddy.Api

/-!
# What holds of every part of every program

The operators, plans and calls are put together from changes. So a condition on programs that is closed under putting programs
together, and holds of the changes, holds of all of them (`Covers.call`). Where a condition holds of the changes of an operator
only as the operator makes them, it is shown of the operator instead: the creation of patterns collects index rows that it
writes in the end, and the deletion of a node with `DETACH` deletes its relationships first.
-/

namespace PgEddy

open Recorded Write

namespace ProgramAux

variable {ch : Chrono} {W : World ch} {C : ∀ {α : Type}, Write α → Prop}

/-! ## Parts that write nothing -/

/-- A condition that holds of a part of a statement when it holds of its parts. -/
structure Composes (C : ∀ {α : Type}, Write α → Prop) : Prop extends Closed Stop.fatal C

namespace Composes

variable (h : Composes C)

include h

theorem ofExec {α : Type} (r : Exec α) : C (Write.ofExec r) := h.lift _

theorem reading {α : Type} (read : Graph → Exec α) : C (Write.reading W read) := by
  apply h.bind h.get
  intro s
  exact h.ofExec _

theorem eval (e : Expr) (row : Row ch) (params : Params) : C (Write.eval W e row params) := h.reading _

theorem evalProps (props : List (String × Expr)) (row : Row ch) (params : Params) :
    C (Write.evalProps W props row params) := by
  apply h.bind
  · apply h.mapM
    intro p
    apply h.bind (h.eval p.2 row params)
    intro v
    exact h.pure _
  · intro entries
    exact h.pure _

theorem ite {α : Type} {c : Prop} [Decidable c] {x y : Write α} (hx : C x) (hy : C y) : C (if c then x else y) := by
  split
  · exact hx
  · exact hy

theorem fail {α : Type} (message : String) : C (Write.fail message : Write α) := h.stop _

theorem forM {α : Type} {f : α → Write PUnit} (hf : ∀ a, C (f a)) (l : List α) : C (l.forM f) := by
  induction l with
  | nil => exact h.pure _
  | cons a l ih =>
    apply h.bind (hf a)
    intro _
    exact ih

theorem injectParams (row : Row ch) (params : Params) : C (PgEddy.injectParams row params) := by
  apply h.foldlM
  intro row p
  split
  · exact h.pure _
  · apply h.bind (h.ofExec _)
    intro v
    exact h.pure _

theorem nodeIdFromRow (row : Row ch) (var : String) : C (PgEddy.nodeIdFromRow row var) := by
  unfold PgEddy.nodeIdFromRow
  split
  · exact h.pure _
  · exact h.pure _
  · exact h.fail _
  · exact h.fail _

theorem loadNode (nodeId : Int64) : C (PgEddy.loadNode nodeId) := by
  apply h.bind h.get
  intro s
  split
  · exact h.pure _
  · exact h.fail _

theorem checkPropertyType (v : Value ch) : C (PgEddy.checkPropertyType v) := by
  unfold PgEddy.checkPropertyType
  split
  · exact h.fail _
  · split
    · exact h.fail _
    · exact h.pure _
  · exact h.pure _

theorem setTarget (e : Expr) : C (PgEddy.setTarget e) := by
  unfold PgEddy.setTarget
  split
  · exact h.pure _
  · exact h.fail _
  · exact h.fail _

theorem sourceProps (var op : String) (v : Value ch) : C (PgEddy.sourceProps var op v) := by
  unfold PgEddy.sourceProps
  split
  · exact h.pure _
  · exact h.pure _
  · exact h.pure _
  · exact h.pure _
  · exact h.fail _

theorem mergeMatchPlan (pattern : Pattern) : C (PgEddy.mergeMatchPlan pattern : Write (LogicalPlan ch)) := by
  apply h.bind h.get
  intro s
  split
  · exact h.pure _
  · exact h.fail _

theorem checkMergeProps (pattern : Pattern) (row : Row ch) (params : Params) :
    C (PgEddy.checkMergeProps W pattern row params) := by
  apply h.forM
  intro elem
  apply h.forM
  intro p
  apply h.bind (h.eval p.2 row params)
  intro v
  split
  · exact h.fail _
  · exact h.pure _

theorem foreachItems (v : Value ch) : C (PgEddy.foreachItems v) := by
  unfold PgEddy.foreachItems
  split
  · apply h.mapM
    intro item
    exact h.ofExec _
  · exact h.pure _
  · exact h.pure _

end Composes

/-! ## `CREATE` -/

/-- The changes that the creation of a pattern is made of. -/
inductive Creation : Change → Prop where
  | node {via labels props} : via ≠ .api → Creation (.createNode via labels props)
  | edge {relType source target props} : Creation (.createEdge false relType source target props)
  | flush : Creation .flush
  | abandon : Creation .abandon

structure Creates (W : World ch) (C : ∀ {α : Type}, Write α → Prop) : Prop extends Composes C where
  change : ∀ c, Creation c → C (Write.change W c)

namespace Creates

variable (h : Creates W C)

include h

theorem createNode {via : CreatePath} (hvia : via ≠ .api) (n : NodePattern) (row : Row ch) (params : Params) :
    C (PgEddy.createNode W via n row params) := by
  apply h.bind (h.evalProps n.properties row params)
  intro props
  apply h.bind (h.change _ (.node hvia))
  intro _
  apply h.bind h.get
  intro s
  exact h.pure _

theorem createNodeElement (single : Bool) (n : NodePattern) (s : CreateState ch) (params : Params) :
    C (PgEddy.createNodeElement W single n s params) := by
  unfold PgEddy.createNodeElement
  split
  · split
    · exact h.fail _
    · exact h.pure _
  · apply h.bind (h.createNode (by decide) n s.row params)
    intro r
    exact h.pure _

theorem destination (next : Option PatternElement) (s : CreateState ch) (params : Params) :
    C (PgEddy.destination W next s params) := by
  unfold PgEddy.destination
  split
  · split
    · split
      · exact h.pure _
      · exact h.fail _
    · rename_i n _ _
      apply h.bind (h.createNode (by decide) n s.row params)
      intro r
      exact h.pure _
  · exact h.fail _

theorem createRelElement (r : RelPattern) (next : Option PatternElement) (s : CreateState ch) (params : Params) :
    C (PgEddy.createRelElement W r next s params) := by
  unfold PgEddy.createRelElement
  split
  · exact h.fail _
  · apply h.bind (h.destination next s params)
    rintro ⟨dstId, s⟩
    apply h.bind (h.evalProps r.properties s.row params)
    intro props
    split
    · exact h.fail _
    · apply h.bind (h.change _ .edge)
      intro _
      apply h.bind h.get
      intro w
      exact h.pure _

theorem createElements (single : Bool) (params : Params) (first : Bool) (elements : List PatternElement)
    (s : CreateState ch) : C (PgEddy.createElements W single params first elements s) := by
  induction elements generalizing first s with
  | nil => exact h.pure s
  | cons elem rest ih =>
    cases elem with
    | node n =>
      unfold PgEddy.createElements
      split
      · exact ih false _
      · apply h.bind (h.createNodeElement single n s params)
        intro s'
        exact ih false s'
    | relationship r =>
      unfold PgEddy.createElements
      split
      · exact h.fail _
      · apply h.bind (h.createRelElement r rest.head? s params)
        intro s'
        exact ih false s'

theorem createPatternInRow (pattern : Pattern) (row : Row ch) (params : Params) :
    C (PgEddy.createPatternInRow W pattern row params) := by
  apply h.bind (h.createElements _ params true pattern.elements { row })
  intro s
  exact h.pure _

theorem buffered {α : Type} {x : Write α} (hx : C x) : C (PgEddy.buffered W x) := by
  apply h.bind (h.onError hx (h.change _ .abandon))
  intro a
  apply h.bind (h.change _ .flush)
  intro _
  exact h.pure a

theorem createRows (patterns : List Pattern) (rows : List (Row ch)) (params : Params) :
    C (PgEddy.createRows W patterns rows params) := by
  apply h.buffered
  apply h.mapM
  intro row
  apply h.foldlM
  intro row pattern
  exact h.createPatternInRow pattern row params

end Creates

/-! ## `DELETE` -/

/-- The changes that `DELETE` and `detach_delete_node` are made of. -/
inductive Deletion : Change → Prop where
  | edge {edgeId} : Deletion (.deleteEdge edgeId)
  | node {via nodeId} : via ≠ .api → Deletion (.deleteNode via nodeId)

structure Deletes (W : World ch) (C : ∀ {α : Type}, Write α → Prop) : Prop extends Composes C where
  change : ∀ c, Deletion c → C (Write.change W c)

namespace Deletes

variable (h : Deletes W C)

include h

theorem deleteEdgeOnce (edgeId : Int64) (d : Deleted) : C (PgEddy.deleteEdgeOnce W edgeId d) := by
  unfold PgEddy.deleteEdgeOnce
  split
  · exact h.pure _
  · apply h.bind (h.change _ .edge)
    intro _
    exact h.pure _

theorem incidentEdgeIds (nodeId : Int64) : C (PgEddy.incidentEdgeIds W nodeId) := by
  apply h.bind h.get
  intro s
  exact h.pure _

theorem deleteNodeOnce (detach : Bool) (nodeId : Int64) (d : Deleted) : C (PgEddy.deleteNodeOnce W detach nodeId d) := by
  unfold PgEddy.deleteNodeOnce
  split
  · exact h.pure _
  · split
    · apply h.bind (h.incidentEdgeIds nodeId)
      intro edgeIds
      apply h.bind (h.foldlM (fun d edgeId => h.deleteEdgeOnce edgeId d) _ _)
      intro d
      apply h.bind (h.change _ (.node (by decide)))
      intro _
      exact h.pure _
    · apply h.bind (h.change _ (.node (by decide)))
      intro _
      exact h.pure _

theorem deletePathNode (nodeId : Int64) (d : Deleted) : C (PgEddy.deletePathNode W nodeId d) := by
  unfold PgEddy.deletePathNode
  split
  · exact h.pure _
  · apply h.bind (h.change _ (.node (by decide)))
    intro _
    exact h.pure _

theorem deleteValue (detach : Bool) (v : Value ch) (d : Deleted) : C (PgEddy.deleteValue W detach v d) := by
  unfold PgEddy.deleteValue
  split
  · exact h.deleteNodeOnce detach _ d
  · exact h.pure _
  · exact h.deleteEdgeOnce _ d
  · apply h.bind (h.foldlM (fun d edgeId => h.deleteEdgeOnce edgeId d) _ _)
    intro d
    exact h.foldlM (fun d nodeId => h.deletePathNode nodeId d) _ _
  · exact h.fail _

theorem deleteRows (exprs : List Expr) (detach : Bool) (rows : List (Row ch)) (params : Params) :
    C (PgEddy.deleteRows W exprs detach rows params) := by
  apply h.bind
  · apply h.foldlM
    intro d row
    apply h.foldlM
    intro d e
    apply h.bind (h.eval e row params)
    intro v
    exact h.deleteValue detach v d
  · intro _
    exact h.pure rows

theorem detachDeleteNode (nodeId : Int64) : C (PgEddy.detachDeleteNode W nodeId) := by
  apply h.bind (h.incidentEdgeIds nodeId)
  intro edgeIds
  apply h.bind (h.forM (fun edgeId => h.change _ .edge) edgeIds)
  intro _
  exact h.change _ (.node (by decide))

end Deletes

/-! ## Everything else -/

/-- The other changes, and the deletion of relationships. -/
inductive Single : Change → Prop where
  | createNode {labels props} : Single (.createNode .api labels props)
  | createEdge {relType source target props} : Single (.createEdge true relType source target props)
  | updateNode {nodeId labels props} : Single (.updateNode nodeId labels props)
  | setProps {nodeId props} : Single (.setProps nodeId props)
  | removeProp {nodeId key} : Single (.removeProp nodeId key)
  | addLabels {nodeId labels} : Single (.addLabels nodeId labels)
  | removeLabels {nodeId labels} : Single (.removeLabels nodeId labels)
  | setEdgeProps {edgeId props} : Single (.setEdgeProps edgeId props)
  | deleteEdge {edgeId} : Single (.deleteEdge edgeId)
  | deleteNode {nodeId} : Single (.deleteNode .api nodeId)
  | createIndex {label key} : Single (.createIndex label key)
  | dropIndex {label key} : Single (.dropIndex label key)
  | createConstraint {label key kind} : Single (.createConstraint label key kind)
  | dropConstraint {label key kind} : Single (.dropConstraint label key kind)
  | clear : Single .clear
  | beginQuery : Single .beginQuery

/-- A closed condition that holds of every single change, of every creation of patterns and of every deletion. -/
structure Covers (W : World ch) (C : ∀ {α : Type}, Write α → Prop) : Prop extends Composes C where
  change : ∀ c, Single c → C (Write.change W c)
  createRows : ∀ patterns rows params, C (PgEddy.createRows W patterns rows params)
  createMerged : ∀ pattern row params, C (PgEddy.buffered W (PgEddy.createPatternInRow W pattern row params))
  deleteRows : ∀ exprs detach rows params, C (PgEddy.deleteRows W exprs detach rows params)
  detachDeleteNode : ∀ nodeId, C (PgEddy.detachDeleteNode W nodeId)

/-- A closed condition that holds of every change. -/
theorem Composes.covers (h : Composes C) (change : ∀ c, C (Write.change W c)) : Covers W C where
  toComposes := h
  change c _ := change c
  createRows := Creates.createRows ⟨h, fun c _ => change c⟩
  createMerged pattern row params := by
    have hc : Creates W C := ⟨h, fun c _ => change c⟩
    exact hc.buffered (hc.createPatternInRow pattern row params)
  deleteRows := Deletes.deleteRows ⟨h, fun c _ => change c⟩
  detachDeleteNode := Deletes.detachDeleteNode ⟨h, fun c _ => change c⟩

namespace Covers

variable (h : Covers W C)

include h

/-! ### `SET`, `REMOVE` and `MERGE` -/

theorem assignProps (row : Row ch) (var : String) (f : List (String × Json) → List (String × Json)) :
    C (PgEddy.assignProps W row var f) := by
  unfold PgEddy.assignProps
  split
  · apply h.bind (h.change _ .setEdgeProps)
    intro _
    exact h.pure _
  · apply h.bind (h.nodeIdFromRow row var)
    intro nodeId
    apply h.bind (h.loadNode nodeId)
    intro r
    apply h.bind (h.change _ .setProps)
    intro _
    exact h.pure _

theorem setItem (item : SetItem) (row : Row ch) (params : Params) : C (PgEddy.setItem W item row params) := by
  unfold PgEddy.setItem
  cases item with
  | property target value =>
    apply h.bind (h.setTarget target)
    rintro ⟨var, key⟩
    apply h.bind (h.eval value row params)
    intro val
    apply h.bind (h.checkPropertyType val)
    intro _
    split
    · exact h.pure _
    · exact h.assignProps row var _
  | var var value =>
    apply h.ite (h.pure _)
    apply h.bind (h.eval value row params)
    intro val
    apply h.bind (h.sourceProps var _ val)
    rintro (_ | props)
    · exact h.pure _
    · exact h.assignProps row var _
  | mergeMap var value =>
    apply h.ite (h.pure _)
    apply h.bind (h.eval value row params)
    intro val
    apply h.bind (h.sourceProps var _ val)
    rintro (_ | props)
    · exact h.pure _
    · exact h.assignProps row var _
  | label var labels =>
    apply h.ite (h.pure _)
    apply h.bind (h.nodeIdFromRow row var)
    intro nodeId
    apply h.bind (h.loadNode nodeId)
    intro _
    apply h.bind (h.change _ .addLabels)
    intro _
    exact h.pure _

theorem setRows (items : List SetItem) (rows : List (Row ch)) (params : Params) :
    C (PgEddy.setRows W items rows params) := by
  apply h.mapM
  intro row
  apply h.bind (h.injectParams row params)
  intro row
  apply h.foldlM
  intro row item
  exact h.setItem item row params

theorem removeItem (item : RemoveItem) (row : Row ch) : C (PgEddy.removeItem W item row) := by
  unfold PgEddy.removeItem
  split
  · split
    · exact h.pure _
    · split
      · apply h.bind (h.change _ .setEdgeProps)
        intro _
        exact h.pure _
      · apply h.bind (h.nodeIdFromRow row _)
        intro nodeId
        apply h.bind (h.loadNode nodeId)
        intro _
        apply h.bind (h.change _ .removeProp)
        intro _
        exact h.pure _
  · exact h.fail _
  · split
    · exact h.pure _
    · apply h.bind (h.nodeIdFromRow row _)
      intro nodeId
      apply h.bind (h.loadNode nodeId)
      intro _
      apply h.bind (h.change _ .removeLabels)
      intro _
      exact h.pure _

theorem removeRows (items : List RemoveItem) (rows : List (Row ch)) (params : Params) :
    C (PgEddy.removeRows W items rows params) := by
  apply h.mapM
  intro row
  apply h.bind (h.injectParams row params)
  intro row
  apply h.foldlM
  intro row item
  exact h.removeItem item row

theorem mergeSet (items : List SetItem) (row : Row ch) (params : Params) : C (PgEddy.mergeSet W items row params) := by
  unfold PgEddy.mergeSet
  split
  · exact h.pure _
  · apply h.bind (h.setRows items [∅] _)
    intro rows
    exact h.pure _

theorem mergeRow (plan : LogicalPlan ch) (pattern : Pattern) (onCreate onMatch : List SetItem) (params : Params)
    (outerRow : Row ch) : C (PgEddy.mergeRow W plan pattern onCreate onMatch params outerRow) := by
  apply h.bind (h.checkMergeProps pattern outerRow _)
  intro _
  apply h.bind (h.reading _)
  intro found
  split
  · apply h.bind (h.createMerged _ outerRow _)
    intro row
    apply h.bind (h.mergeSet onCreate row _)
    intro row
    exact h.pure _
  · apply h.mapM
    intro row
    apply h.bind (h.mergeSet onMatch _ _)
    intro row
    exact h.pure _

theorem mergeRows (pattern : Pattern) (onCreate onMatch : List SetItem) (rows : List (Row ch)) (params : Params) :
    C (PgEddy.mergeRows W pattern onCreate onMatch rows params) := by
  apply h.bind (h.mergeMatchPlan pattern)
  intro plan
  apply h.bind (h.mapM (h.mergeRow plan pattern onCreate onMatch params) rows)
  intro rows
  exact h.pure _

/-! ### Plans and calls -/

theorem foreachRows (var : String) (listExpr : Expr) {body : Params → Write (List (Row ch))} (hbody : ∀ params, C (body params))
    (rows : List (Row ch)) (params : Params) : C (PgEddy.foreachRows W var listExpr body rows params) := by
  apply h.bind
  · apply h.forM
    intro row
    apply h.bind (h.eval listExpr row params)
    intro v
    apply h.bind (h.foreachItems v)
    intro items
    apply h.forM
    intro item
    exact h.swallow (hbody _)
  · intro _
    exact h.pure rows

theorem thenCreate (pending : Option (List Pattern)) (rows : List (Row ch)) (params : Params) :
    C (PgEddy.thenCreate W pending rows params) := by
  cases pending with
  | none => exact h.pure rows
  | some patterns => exact h.createRows patterns rows params

/-- The condition holds of every plan: by induction over the plan, the operator after its inputs. -/
theorem execWrite (plan : WritePlan ch) (pending : Option (List Pattern)) (params : Params) :
    C (PgEddy.execWrite W plan pending params) := by
  induction plan generalizing pending params with
  | leaf op =>
    apply h.bind (h.reading _)
    intro rows
    exact h.thenCreate pending rows params
  | reads input op ih =>
    apply h.bind (ih none params)
    intro rows
    apply h.bind (h.reading _)
    intro rows
    exact h.thenCreate pending rows params
  | correlated outer inner join ihouter ihinner =>
    apply h.bind (ihouter none params)
    intro rows
    apply h.bind
    · apply h.mapM
      intro row
      apply h.bind (ihinner none _)
      intro inner
      exact h.pure _
    · intro joined
      exact h.thenCreate pending _ params
  | union left right join ihleft ihright =>
    apply h.bind (ihleft none params)
    intro leftRows
    apply h.bind (ihright none params)
    intro rightRows
    exact h.thenCreate pending _ params
  | createPattern input patterns ih => exact ih _ params
  | setProp input items ih =>
    apply h.bind (ih none params)
    intro rows
    apply h.bind (h.setRows items rows params)
    intro rows
    exact h.thenCreate pending rows params
  | removeProp input items ih =>
    apply h.bind (ih none params)
    intro rows
    apply h.bind (h.removeRows items rows params)
    intro rows
    exact h.thenCreate pending rows params
  | deleteNodes input exprs detach ih =>
    apply h.bind (ih none params)
    intro rows
    apply h.bind (h.deleteRows exprs detach rows params)
    intro rows
    exact h.thenCreate pending rows params
  | mergePattern input pattern onCreate onMatch ih =>
    apply h.bind (ih none params)
    intro rows
    apply h.bind (h.mergeRows pattern onCreate onMatch rows params)
    intro rows
    exact h.thenCreate pending rows params
  | foreach input var listExpr body ihinput ihbody =>
    apply h.bind (ihinput none params)
    intro rows
    apply h.bind (h.foreachRows var listExpr (ihbody none) rows params)
    intro rows
    exact h.thenCreate pending rows params
  | createIndex label key =>
    apply h.bind (h.change _ .createIndex)
    intro _
    exact h.thenCreate pending [] params
  | dropIndex label key =>
    apply h.bind h.get
    intro s
    apply h.bind (h.change _ .dropIndex)
    intro _
    exact h.thenCreate pending _ params
  | createConstraint label key kind =>
    apply h.bind (h.change _ .createConstraint)
    intro _
    exact h.thenCreate pending [] params
  | dropConstraint label key kind =>
    apply h.bind h.get
    intro s
    apply h.bind (h.change _ .dropConstraint)
    intro _
    exact h.thenCreate pending _ params

/-- The condition holds of every call. -/
theorem call (c : Call ch) : C (c.program W) := by
  cases c with
  | createNode labels props => exact h.change _ .createNode
  | updateNode nodeId labels props => exact h.change _ .updateNode
  | deleteNode nodeId => exact h.change _ .deleteNode
  | detachDeleteNode nodeId => exact h.detachDeleteNode nodeId
  | addLabel nodeId label =>
    apply h.bind h.get
    intro s
    split
    · exact h.pure _
    · split
      · exact h.pure _
      · exact h.change _ .addLabels
  | removeLabel nodeId label =>
    apply h.bind h.get
    intro s
    split
    · exact h.pure _
    · split
      · exact h.change _ .removeLabels
      · exact h.pure _
  | createEdge source target relType props => exact h.change _ .createEdge
  | deleteEdge relId =>
    apply h.bind h.get
    intro s
    split
    · exact h.change _ .deleteEdge
    · exact h.pure _
  | createNodeIndex label prop => exact h.change _ .createIndex
  | dropNodeIndex label prop => exact h.change _ .dropIndex
  | clear => exact h.change _ .clear
  | cypher plan params =>
    apply h.bind (h.change _ .beginQuery)
    intro _
    apply h.bind (h.execWrite plan none params)
    intro _
    exact h.pure _

end Covers

end ProgramAux

end PgEddy
