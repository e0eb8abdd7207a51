import PgEddy.Lemmas.Changes

/-!
# Referential integrity

The endpoints of the live relationships are live nodes, over every run of calls. A relationship is refused when one of its
nodes is missing, and `DETACH` deletes the relationships of a node before it. `delete_node`, `DELETE` of a node and `DELETE` of
a path do not look at the relationships of the node: a run keeps the integrity when none of these deletes a node that still
has relationships.
-/

namespace PgEddy

variable {ch : Chrono} {W : World ch}

/-- The source and the target of every live relationship are live nodes. -/
def Db.Linked (db : Db) : Prop := ∀ e ∈ db.edges, (db.findNode e.source).isSome ∧ (db.findNode e.target).isSome

instance (db : Db) : Decidable db.Linked := inferInstanceAs (Decidable (∀ e ∈ db.edges, _))

/-- The node that a change deletes without looking at its relationships. -/
def Change.deletesAlone : Change → Option Int64
  | .deleteNode .api nodeId | .deleteNode .node nodeId | .deleteNode .path nodeId => some nodeId
  | _ => none

/-- A node that is deleted without `DETACH` has no relationships when it is deleted. -/
def DeletesIsolated (e : Change × Session) : Prop :=
  ∀ nodeId ∈ e.1.deletesAlone, ∀ edge ∈ e.2.db.edges, ¬edge.Touches nodeId

-- The node is the one of the change: `Int64` is a finite type, and its values must not be gone through.
instance : DecidablePred DeletesIsolated := fun _ => @Option.decidableForallMem _ _ (fun _ => List.decidableBAll _ _) _

namespace LinkedAux

theorem linked_insertNode {db : Db} (h : db.Linked) (nodeId : Int64) (r : NodeEntry) : (db.insertNode nodeId r).Linked := by
  intro e he
  obtain ⟨hsource, htarget⟩ := h e he
  rw [Db.findNode_insertNode, Db.findNode_insertNode, Option.isSome_or, Option.isSome_or, hsource, htarget]
  exact ⟨rfl, rfl⟩

theorem linked_setNode {db : Db} (h : db.Linked) (nodeId : Int64) (r : NodeEntry) : (db.setNode nodeId r).Linked := by
  have hlive : ∀ m, (db.findNode m).isSome → ((db.setNode nodeId r).findNode m).isSome := by
    intro m hm
    rw [Db.findNode_setNode]
    split
    · rename_i heq
      rwa [Option.isSome_map]
    · exact hm
  intro e he
  exact (h e he).imp (hlive _) (hlive _)

theorem linked_removeNode {db : Db} (h : db.Linked) {nodeId : Int64} (hnone : ∀ e ∈ db.edges, ¬e.Touches nodeId) :
    (db.removeNode nodeId).Linked := by
  intro e he
  obtain ⟨hsource, htarget⟩ := h e he
  have hne := not_or.mp (hnone e he)
  rw [Db.findNode_removeNode, Db.findNode_removeNode, if_neg hne.1, if_neg hne.2]
  exact ⟨hsource, htarget⟩

/-- The integrity depends on the nodes and the relationships only. -/
theorem linked_congr {db db' : Db} (hnodes : db'.nodes = db.nodes) (hedges : db'.edges = db.edges) (h : db.Linked) :
    db'.Linked := by
  intro e he
  rw [hedges] at he
  unfold Db.findNode
  rw [hnodes]
  exact h e he

theorem linked_indexNodeUpdate {s : Session} (h : s.db.Linked) (nodeId : Int64) (labels : List String)
    (props : List (String × Json)) : (s.indexNodeUpdate nodeId labels props).db.Linked := by
  obtain ⟨rows, looked, heq⟩ := Session.indexNodeUpdate_eq nodeId props labels s
  rw [heq]
  exact linked_congr rfl rfl h

theorem linked_createNode {via : CreatePath} {labels : List String} {props : List (String × Json)} {s s' : Session}
    (h : s.db.Linked) (hrun : (Change.createNode via labels props).run s = (s', .ok ())) : s'.db.Linked := by
  obtain ⟨seq, rows, looked, -, rfl⟩ := Change.run_createNode hrun
  have hseq : Db.Linked { s.db with nodeSeq := seq } := linked_congr rfl rfl h
  have hnew := linked_insertNode hseq (Int64.ofNat seq) ⟨labels, storedFields props⟩
  cases via <;> exact linked_congr rfl rfl hnew

theorem linked_createEdge {api : Bool} {relType : String} {source target : Int64} {props : List (String × Json)}
    {s s' : Session} (h : s.db.Linked) (hrun : (Change.createEdge api relType source target props).run s = (s', .ok ())) :
    s'.db.Linked := by
  obtain ⟨seq, -, hsource, htarget, rfl⟩ := Change.run_createEdge hrun
  have hnew : Db.Linked { s.db with edges := s.db.edges ++ [⟨Int64.ofNat seq, relType, source, target, storedFields props⟩] } := by
    intro e he
    rcases List.mem_append.mp he with he | he
    · exact h e he
    · rw [List.mem_singleton.mp he]
      exact ⟨hsource, htarget⟩
  cases api <;> exact linked_congr rfl rfl hnew

theorem linked_updateEdgeProps {db : Db} (h : db.Linked) (edgeId : Int64) (props : List (String × Json)) :
    (db.updateEdgeProps edgeId props).Linked := by
  intro e he
  obtain ⟨e', he', rfl⟩ := List.mem_map.mp he
  split
  · exact h e' he'
  · exact h e' he'

theorem linked_removeEdge {db : Db} (h : db.Linked) (edgeId : Int64) : (db.removeEdge edgeId).Linked := by
  intro e he
  exact h e (List.mem_filter.mp he).1

theorem linked_deleteNode {via : DeletePath} {nodeId : Int64} {s : Session} (h : s.db.Linked)
    (hnone : ∀ e ∈ s.db.edges, ¬e.Touches nodeId) : (Change.deleteNodeRun via nodeId s).db.Linked := by
  have hremoved := linked_removeNode h hnone
  cases via with
  | api | apiDetach =>
    exact Change.onNode_cases (P := fun t => t.db.Linked) h fun _ _ => linked_congr rfl rfl hremoved
  | node | detach | path => exact linked_congr rfl rfl hremoved

/-- The integrity is kept by every change that does not delete a node with relationships. -/
theorem linked_run {c : Change} {s s' : Session} (hisolated : DeletesIsolated (c, s)) (hdetached : DetachedFirst (c, s))
    (h : s.db.Linked) (hrun : c.run s = (s', .ok ())) : s'.db.Linked := by
  cases c with
  | createNode via labels props => exact linked_createNode h hrun
  | createEdge api relType source target props => exact linked_createEdge h hrun
  | updateNode nodeId labels props =>
    cases hrun
    exact Change.onNode_cases (P := fun t => t.db.Linked) h fun _ _ =>
      linked_indexNodeUpdate (linked_congr rfl rfl (linked_setNode h _ _)) nodeId labels props
  | setProps nodeId props =>
    cases hrun
    exact Change.onNode_cases (P := fun t => t.db.Linked) h fun r _ =>
      linked_indexNodeUpdate (linked_setNode h _ _) nodeId r.labels props
  | removeProp nodeId key =>
    cases hrun
    exact Change.onNode_cases (P := fun t => t.db.Linked) h fun r _ => linked_setNode h _ _
  | addLabels nodeId labels =>
    cases hrun
    exact Change.onNode_cases (P := fun t => t.db.Linked) h fun r _ =>
      linked_setNode (linked_congr rfl rfl h) _ _
  | removeLabels nodeId labels =>
    cases hrun
    exact Change.onNode_cases (P := fun t => t.db.Linked) h fun r _ =>
      linked_setNode (linked_congr rfl rfl h) _ _
  | setEdgeProps edgeId props =>
    cases hrun
    exact linked_updateEdgeProps h edgeId props
  | deleteEdge edgeId =>
    cases hrun
    exact linked_removeEdge h edgeId
  | deleteNode via nodeId =>
    cases hrun
    have hnone : ∀ e ∈ s.db.edges, ¬e.Touches nodeId := by
      cases via with
      | detach | apiDetach => exact hdetached
      | api | node | path => exact hisolated nodeId rfl
    exact linked_deleteNode h hnone
  | dropIndex label key =>
    cases hrun
    obtain ⟨catalog, rows, heq⟩ := s.db.dropPropertyIndex_eq label key
    change (s.db.dropPropertyIndex label key).Linked
    rw [heq]
    exact linked_congr rfl rfl h
  | createConstraint label key kind =>
    cases hrun
    obtain ⟨catalog, heq⟩ := s.db.createConstraint_eq label key kind
    change (s.db.createConstraint label key kind).Linked
    rw [heq]
    exact linked_congr rfl rfl h
  | clear =>
    cases hrun
    exact List.forall_mem_nil _
  | flush | abandon | createIndex | dropConstraint | beginQuery =>
    cases hrun
    exact h

end LinkedAux

open LinkedAux

open Sample

end PgEddy
