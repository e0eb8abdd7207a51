import PgEddy.Lemmas.Buffers
import PgEddy.Lib.Table

/-!
# The catalog tables

`label_index` has one row for each live node and each of its labels, and `edge_type_src` and `edge_type_dst` have one row for
each live relationship, over every run of calls. The rows of a creation are collected in a buffer and written in the end: what
is invariant is the tables together with the buffer. A creation that fails inside of `FOREACH` loses its buffer but not what
it has created, and a node that is created with a label twice has two rows for it.
-/

namespace PgEddy

variable {ch : Chrono} {W : World ch}

/-- The row of `edge_type_src` for a relationship. -/
def RelRecord.srcRow (e : RelRecord) : String × Int64 × Int64 := (e.relType, e.source, e.edgeId)

/-- The row of `edge_type_dst` for a relationship. -/
def RelRecord.dstRow (e : RelRecord) : String × Int64 × Int64 := (e.relType, e.target, e.edgeId)

/-- The row of `label_index` is for a live node and a label it has. -/
def Db.IsLabelRow (db : Db) (row : String × Int64) : Prop := ∃ r, db.findNode row.2 = some r ∧ row.1 ∈ r.labels

/-- The catalog tables follow the store. -/
structure Db.CatalogFollows (db : Db) : Prop where
  /-- One row for each live node and each label it has. -/
  label_index : Table.Holds db.labelIndex db.IsLabelRow
  /-- One row for each live relationship. -/
  edge_type_src : db.edgeTypeSrc.Perm (db.edges.map RelRecord.srcRow)
  edge_type_dst : db.edgeTypeDst.Perm (db.edges.map RelRecord.dstRow)

/-- The labels that a change gives a node all at once. -/
def Change.givenLabels : Change → List String
  | .createNode _ labels _ | .updateNode _ labels _ => labels
  | _ => []

def Change.abandons : Change → Bool
  | .abandon => true
  | _ => false

/-- A change gives no label twice, and loses no index rows that are collected. -/
def CollectsAll (e : Change × Session) : Prop := e.1.givenLabels.Nodup ∧ (e.1.abandons = true → e.2.buf = {})

instance : DecidablePred CollectsAll := fun e =>
  inferInstanceAs (Decidable (e.1.givenLabels.Nodup ∧ (e.1.abandons = true → e.2.buf = {})))

namespace CatalogAux

/-! ## The rows of relationships -/

/-- The rows of the relationships, those that are collected included. -/
structure EdgesFollow (s : Session) : Prop where
  src : (s.db.edgeTypeSrc ++ s.buf.edgeTypeSrc).Perm (s.db.edges.map RelRecord.srcRow)
  dst : (s.db.edgeTypeDst ++ s.buf.edgeTypeDst).Perm (s.db.edges.map RelRecord.dstRow)

/-- The part of a session that the rows of the relationships depend on. -/
def edgePart (s : Session) : List RelRecord × List (String × Int64 × Int64) × List (String × Int64 × Int64) ×
    List (String × Int64 × Int64) × List (String × Int64 × Int64) :=
  (s.db.edges, s.db.edgeTypeSrc, s.db.edgeTypeDst, s.buf.edgeTypeSrc, s.buf.edgeTypeDst)

theorem EdgesFollow.of_same {s t : Session} (h : EdgesFollow s) (hsame : edgePart t = edgePart s) : EdgesFollow t := by
  simp only [edgePart, Prod.mk.injEq] at hsame
  obtain ⟨hedges, hsrc, hdst, hbufsrc, hbufdst⟩ := hsame
  refine ⟨?_, ?_⟩
  · rw [hedges, hsrc, hbufsrc]
    exact h.src
  · rw [hedges, hdst, hbufdst]
    exact h.dst

theorem edgePart_indexNodeUpdate (nodeId : Int64) (labels : List String) (props : List (String × Json)) (s : Session) :
    edgePart (s.indexNodeUpdate nodeId labels props) = edgePart s := by
  obtain ⟨rows, looked, h⟩ := Session.indexNodeUpdate_eq nodeId props labels s
  rw [h]
  rfl

theorem edgePart_onNode {nodeId : Int64} {f : NodeEntry → Session → Session} {s : Session}
    (hf : ∀ r, edgePart (f r s) = edgePart s) : edgePart (Change.onNode nodeId f s) = edgePart s :=
  Change.onNode_cases (P := fun t => edgePart t = edgePart s) rfl fun r _ => hf r

theorem edgePart_deleteNodeRun (via : DeletePath) (nodeId : Int64) (s : Session) :
    edgePart (Change.deleteNodeRun via nodeId s) = edgePart s := by
  cases via with
  | api | apiDetach => exact edgePart_onNode fun _ => rfl
  | node | detach | path => rfl

theorem perm_insert_before {α : Type} {t b rows : List α} (h : (t ++ b).Perm rows) (r : α) :
    (t ++ [r] ++ b).Perm (rows ++ [r]) := by
  rw [List.append_assoc]
  refine (List.perm_append_comm.append_left t).trans ?_
  rw [← List.append_assoc]
  exact h.append_right [r]

theorem perm_insert_after {α : Type} {t b rows : List α} (h : (t ++ b).Perm rows) (r : α) :
    (t ++ (b ++ [r])).Perm (rows ++ [r]) := by
  rw [← List.append_assoc]
  exact h.append_right [r]

theorem edgesFollow_createEdge {api : Bool} {relType : String} {source target : Int64} {props : List (String × Json)}
    {s s' : Session} (h : EdgesFollow s) (hrun : (Change.createEdge api relType source target props).run s = (s', .ok ())) :
    EdgesFollow s' := by
  obtain ⟨seq, -, -, -, rfl⟩ := Change.run_createEdge hrun
  have hedges : ∀ f : RelRecord → String × Int64 × Int64,
      (Change.withEdge api relType source target props seq s).db.edges.map f =
        s.db.edges.map f ++ [f ⟨Int64.ofNat seq, relType, source, target, storedFields props⟩] := by
    intro f
    cases api <;> exact List.map_append
  cases api with
  | true =>
    refine ⟨?_, ?_⟩
    · rw [hedges]
      exact perm_insert_before h.src _
    · rw [hedges]
      exact perm_insert_before h.dst _
  | false =>
    refine ⟨?_, ?_⟩
    · rw [hedges]
      exact perm_insert_after h.src _
    · rw [hedges]
      exact perm_insert_after h.dst _

theorem edgesFollow_deleteEdge {edgeId : Int64} {s : Session} (hbuf : s.buf = {}) (h : EdgesFollow s) :
    EdgesFollow (s.onDb (·.removeEdge edgeId)) := by
  obtain ⟨hsrc, hdst⟩ := h
  rw [hbuf, List.append_nil] at hsrc hdst
  refine ⟨?_, ?_⟩
  · change ((s.db.edgeTypeSrc.filter (·.2.2 ≠ edgeId)) ++ s.buf.edgeTypeSrc).Perm
      ((s.db.edges.filter (·.edgeId ≠ edgeId)).map RelRecord.srcRow)
    rw [hbuf, List.append_nil]
    refine (hsrc.filter _).trans (.of_eq ?_)
    rw [List.filter_map]
    rfl
  · change ((s.db.edgeTypeDst.filter (·.2.2 ≠ edgeId)) ++ s.buf.edgeTypeDst).Perm
      ((s.db.edges.filter (·.edgeId ≠ edgeId)).map RelRecord.dstRow)
    rw [hbuf, List.append_nil]
    refine (hdst.filter _).trans (.of_eq ?_)
    rw [List.filter_map]
    rfl

theorem map_updateEdgeProps {β : Type} {f : RelRecord → β} (hf : ∀ e props, f { e with properties := props } = f e)
    (db : Db) (edgeId : Int64) (props : List (String × Json)) : (db.updateEdgeProps edgeId props).edges.map f = db.edges.map f := by
  unfold Db.updateEdgeProps
  rw [List.map_map]
  refine List.map_congr_left fun e _ => ?_
  simp only [Function.comp]
  split
  · exact hf e _
  · rfl

/-- The rows of the relationships follow every change, if no rows that are collected are lost. -/
theorem edgesFollow_run {c : Change} {s s' : Session} (hP : CollectsAll (c, s)) (hout : OutsideBuffer (c, s))
    (h : EdgesFollow s) (hrun : c.run s = (s', .ok ())) : EdgesFollow s' := by
  cases c with
  | createNode via labels props =>
    obtain ⟨seq, rows, looked, -, rfl⟩ := Change.run_createNode hrun
    cases via <;> exact h.of_same rfl
  | createEdge api relType source target props => exact edgesFollow_createEdge h hrun
  | updateNode | setProps =>
    cases hrun
    exact h.of_same (edgePart_onNode fun r => edgePart_indexNodeUpdate _ _ _ _)
  | removeProp | addLabels | removeLabels =>
    cases hrun
    exact h.of_same (edgePart_onNode fun _ => rfl)
  | setEdgeProps edgeId props =>
    cases hrun
    refine ⟨h.src.trans (.of_eq ?_), h.dst.trans (.of_eq ?_)⟩
    · exact (map_updateEdgeProps (fun _ _ => rfl) s.db edgeId props).symm
    · exact (map_updateEdgeProps (fun _ _ => rfl) s.db edgeId props).symm
  | deleteEdge edgeId =>
    cases hrun
    exact edgesFollow_deleteEdge (hout.resolve_left nofun) h
  | deleteNode via nodeId =>
    cases hrun
    exact h.of_same (edgePart_deleteNodeRun via nodeId s)
  | flush =>
    cases hrun
    refine ⟨?_, ?_⟩
    · exact (List.append_nil _).symm ▸ h.src
    · exact (List.append_nil _).symm ▸ h.dst
  | abandon =>
    cases hrun
    have hbuf : s.buf = {} := hP.2 rfl
    obtain ⟨hsrc, hdst⟩ := h
    rw [hbuf] at hsrc hdst
    exact ⟨hsrc, hdst⟩
  | clear =>
    cases hrun
    have hbuf : s.buf = {} := hout.resolve_left nofun
    refine ⟨?_, ?_⟩
    · change ([] ++ s.buf.edgeTypeSrc).Perm []
      rw [hbuf]
      exact .nil
    · change ([] ++ s.buf.edgeTypeDst).Perm []
      rw [hbuf]
      exact .nil
  | dropIndex label key =>
    cases hrun
    obtain ⟨catalog, rows, heq⟩ := s.db.dropPropertyIndex_eq label key
    apply h.of_same
    change edgePart { s with db := s.db.dropPropertyIndex label key } = edgePart s
    rw [heq]
    rfl
  | createConstraint label key kind =>
    cases hrun
    obtain ⟨catalog, heq⟩ := s.db.createConstraint_eq label key kind
    apply h.of_same
    change edgePart { s with db := s.db.createConstraint label key kind } = edgePart s
    rw [heq]
    rfl
  | createIndex | dropConstraint | beginQuery =>
    cases hrun
    exact h.of_same rfl

/-! ## The rows of labels -/

theorem nodup_labelRows {labels : List String} (h : labels.Nodup) (nodeId : Int64) : (labels.map (·, nodeId)).Nodup :=
  h.map fun _ _ heq => (Prod.mk.inj heq).1

theorem isLabelRow_insertNode {db : Db} {nodeId : Int64} {r : NodeEntry} (hnew : db.findNode nodeId = none)
    (row : String × Int64) : (db.insertNode nodeId r).IsLabelRow row ↔ db.IsLabelRow row ∨ row ∈ r.labels.map (·, nodeId) := by
  obtain ⟨label, m⟩ := row
  simp only [Db.IsLabelRow, Db.findNode_insertNode, Option.or_eq_some_iff, List.mem_map, Prod.mk.injEq]
  constructor
  · rintro ⟨r', hold | ⟨-, hr'⟩, hlabel⟩
    · exact .inl ⟨r', hold, hlabel⟩
    · split at hr'
      · rename_i heq
        cases hr'
        exact .inr ⟨label, hlabel, rfl, heq.symm⟩
      · cases hr'
  · rintro (⟨r', hold, hlabel⟩ | ⟨l, hl, rfl, rfl⟩)
    · exact ⟨r', .inl hold, hlabel⟩
    · exact ⟨r, .inr ⟨hnew, if_pos rfl⟩, hl⟩

theorem isLabelRow_setNode {db : Db} {nodeId : Int64} {r : NodeEntry} (hlive : (db.findNode nodeId).isSome)
    (row : String × Int64) : (db.setNode nodeId r).IsLabelRow row ↔
      if row.2 = nodeId then row.1 ∈ r.labels else db.IsLabelRow row := by
  obtain ⟨label, m⟩ := row
  obtain ⟨r', hr'⟩ := Option.isSome_iff_exists.mp hlive
  simp only [Db.IsLabelRow, Db.findNode_setNode]
  split
  · rename_i heq
    rw [heq, hr']
    simp
  · rfl

theorem isLabelRow_removeNode (db : Db) (nodeId : Int64) (row : String × Int64) :
    (db.removeNode nodeId).IsLabelRow row ↔ db.IsLabelRow row ∧ row.2 ≠ nodeId := by
  obtain ⟨label, m⟩ := row
  simp only [Db.IsLabelRow, Db.findNode_removeNode]
  by_cases hm : m = nodeId
  · simp [hm]
  · simp [hm]

theorem newLabels_spec (labels : List String) (r : NodeEntry) :
    (Change.newLabels labels r).Nodup ∧ ∀ l ∈ Change.newLabels labels r, l ∉ r.labels := by
  refine List.foldlRecOn (motive := fun new => new.Nodup ∧ ∀ l ∈ new, l ∉ r.labels) labels _
    ⟨List.nodup_nil, List.forall_mem_nil _⟩ ?_
  intro new h l _
  split
  · exact h
  · rename_i hl
    rw [List.mem_append, not_or] at hl
    refine ⟨List.Nodup.append h.1 (List.nodup_singleton l) (by simpa using hl.2), ?_⟩
    intro l' hl'
    rcases List.mem_append.mp hl' with hold | hnew
    · exact h.2 l' hold
    · rw [List.mem_singleton.mp hnew]
      exact hl.1

/-- The rows of the labels, those that are collected included, are those of the live nodes. -/
def HoldsLabels (s : Session) : Prop := Table.Holds (s.db.labelIndex ++ s.buf.labelIndex) s.db.IsLabelRow

/-- The part of a session that the rows of the labels depend on. -/
def labelPart (s : Session) : List (Int64 × NodeEntry) × List (String × Int64) :=
  (s.db.nodes, s.db.labelIndex ++ s.buf.labelIndex)

theorem HoldsLabels.of_same {s t : Session} (h : HoldsLabels s) (hsame : labelPart t = labelPart s) : HoldsLabels t := by
  simp only [labelPart, Prod.mk.injEq] at hsame
  obtain ⟨hnodes, hrows⟩ := hsame
  unfold HoldsLabels
  rw [hrows]
  refine h.congr fun row => ?_
  unfold Db.IsLabelRow Db.findNode
  rw [hnodes]

theorem HoldsLabels.indexNodeUpdate {s : Session} (h : HoldsLabels s) (nodeId : Int64) (labels : List String)
    (props : List (String × Json)) : HoldsLabels (s.indexNodeUpdate nodeId labels props) := by
  obtain ⟨rows, looked, heq⟩ := Session.indexNodeUpdate_eq nodeId props labels s
  rw [heq]
  exact h.of_same rfl

/-- A live node with new labels, when nothing is collected: the other rows stay, and the node has one row for each label. -/
theorem holdsLabels_setNode {s : Session} {nodeId : Int64} {r q : NodeEntry} {rows : List (String × Int64)}
    (hbuf : s.buf = {}) (h : HoldsLabels s) (hlive : s.db.findNode nodeId = some r) (hnodup : rows.Nodup)
    (hrows : ∀ row, row ∈ rows ↔ if row.2 = nodeId then row.1 ∈ q.labels else row ∈ s.db.labelIndex) :
    HoldsLabels { s with db := { s.db.setNode nodeId q with labelIndex := rows } } := by
  unfold HoldsLabels at h ⊢
  rw [hbuf, List.append_nil] at h
  change Table.Holds (rows ++ s.buf.labelIndex) (s.db.setNode nodeId q).IsLabelRow
  rw [hbuf, List.append_nil]
  refine ⟨hnodup, fun row => (hrows row).trans ?_⟩
  rw [isLabelRow_setNode (Option.isSome_of_eq_some hlive), h.mem_iff]

/-- The rows of a live node are those of its labels. -/
theorem HoldsLabels.row_iff {s : Session} {nodeId : Int64} {r : NodeEntry} (h : HoldsLabels s) (hbuf : s.buf = {})
    (hlive : s.db.findNode nodeId = some r) (row : String × Int64) :
    row ∈ s.db.labelIndex ↔ if row.2 = nodeId then row.1 ∈ r.labels else row ∈ s.db.labelIndex := by
  split
  · rename_i heq
    unfold HoldsLabels at h
    rw [hbuf, List.append_nil] at h
    rw [h.mem_iff, Db.IsLabelRow, heq, hlive]
    simp
  · rfl

theorem HoldsLabels.nodup {s : Session} (h : HoldsLabels s) : s.db.labelIndex.Nodup :=
  (List.nodup_append.mp (Table.Holds.nodup h)).1

theorem holdsLabels_deleteNode {s : Session} (hbuf : s.buf = {}) (h : HoldsLabels s) (nodeId : Int64) :
    HoldsLabels (s.onDb fun db => (db.removeNode nodeId).dropLabelRows nodeId) := by
  unfold HoldsLabels at h ⊢
  rw [hbuf, List.append_nil] at h
  change Table.Holds (s.db.labelIndex.filter (·.2 ≠ nodeId) ++ s.buf.labelIndex) (s.db.removeNode nodeId).IsLabelRow
  rw [hbuf, List.append_nil]
  refine (h.delete _).congr fun row => ?_
  rw [isLabelRow_removeNode, decide_eq_true_iff]

theorem holds_createNode {via : CreatePath} {labels : List String} {props : List (String × Json)} {s s' : Session}
    (hlabels : labels.Nodup) (hnumbered : s.db.Numbered) (h : HoldsLabels s)
    (hrun : (Change.createNode via labels props).run s = (s', .ok ())) : HoldsLabels s' := by
  obtain ⟨seq, rows, looked, hseq, rfl⟩ := Change.run_createNode hrun
  have hfresh := hnumbered.fresh hseq
  have hinsert := Table.Holds.insert h (nodup_labelRows hlabels (Int64.ofNat seq)) fun row hrow hold => by
    obtain ⟨l, -, rfl⟩ := List.mem_map.mp hrow
    obtain ⟨r, hr, -⟩ := hold
    rw [hfresh] at hr
    cases hr
  have hheld : Table.Holds (s.db.labelIndex ++ s.buf.labelIndex ++ labels.map (·, Int64.ofNat seq))
      (s.db.insertNode (Int64.ofNat seq) ⟨labels, storedFields props⟩).IsLabelRow :=
    hinsert.congr fun row => (isLabelRow_insertNode (r := ⟨labels, storedFields props⟩) hfresh row).symm
  cases via with
  | api =>
    refine hheld.perm ?_
    change (s.db.labelIndex ++ labels.map (·, Int64.ofNat seq) ++ s.buf.labelIndex).Perm _
    rw [List.append_assoc, List.append_assoc]
    exact List.perm_append_comm.append_left _
  | pattern | destination =>
    refine hheld.perm (.of_eq ?_)
    exact (List.append_assoc _ _ _).symm

/-- The rows of the labels follow every change, if no labels are given twice and no rows that are collected are lost. -/
theorem holdsLabels_run {c : Change} {s s' : Session} (hP : CollectsAll (c, s)) (hout : OutsideBuffer (c, s))
    (hnumbered : s.db.Numbered) (h : HoldsLabels s) (hrun : c.run s = (s', .ok ())) : HoldsLabels s' := by
  cases c with
  | createNode via labels props => exact holds_createNode hP.1 hnumbered h hrun
  | createEdge api relType source target props =>
    obtain ⟨seq, -, -, -, rfl⟩ := Change.run_createEdge hrun
    cases api <;> exact h.of_same rfl
  | updateNode nodeId labels props =>
    cases hrun
    have hbuf : s.buf = {} := hout.resolve_left nofun
    refine Change.onNode_cases (P := HoldsLabels) h fun r hr => HoldsLabels.indexNodeUpdate ?_ nodeId labels props
    refine holdsLabels_setNode (q := ⟨labels, storedFields props⟩) hbuf h hr ?_ ?_
    · refine List.nodup_append.mpr ⟨h.nodup.filter _, nodup_labelRows hP.1 nodeId, ?_⟩
      rintro row hold _ hnew rfl
      obtain ⟨l, -, rfl⟩ := List.mem_map.mp hnew
      exact of_decide_eq_true (List.mem_filter.mp hold).2 rfl
    · rintro ⟨l, m⟩
      change (l, m) ∈ s.db.labelIndex.filter (·.2 ≠ nodeId) ++ labels.map (·, nodeId) ↔ _
      by_cases hm : m = nodeId
      · simp [hm]
      · simp [hm, Ne.symm hm]
  | setProps nodeId props =>
    cases hrun
    have hbuf : s.buf = {} := hout.resolve_left nofun
    refine Change.onNode_cases (P := HoldsLabels) h fun r hr => HoldsLabels.indexNodeUpdate ?_ nodeId r.labels props
    exact holdsLabels_setNode (q := ⟨r.labels, storedFields props⟩) hbuf h hr h.nodup fun row => h.row_iff hbuf hr row
  | removeProp nodeId key =>
    cases hrun
    have hbuf : s.buf = {} := hout.resolve_left nofun
    refine Change.onNode_cases (P := HoldsLabels) h fun r hr => ?_
    exact holdsLabels_setNode (q := ⟨r.labels, _⟩) hbuf h hr h.nodup fun row => h.row_iff hbuf hr row
  | addLabels nodeId labels =>
    cases hrun
    have hbuf : s.buf = {} := hout.resolve_left nofun
    refine Change.onNode_cases (P := HoldsLabels) h fun r hr => ?_
    obtain ⟨hnodup, hnew⟩ := newLabels_spec labels r
    refine holdsLabels_setNode (q := ⟨r.labels ++ Change.newLabels labels r, r.properties⟩) hbuf h hr ?_ ?_
    · refine List.nodup_append.mpr ⟨h.nodup, nodup_labelRows hnodup nodeId, ?_⟩
      rintro row hold _ hrow rfl
      obtain ⟨l, hl, rfl⟩ := List.mem_map.mp hrow
      exact hnew l hl (by simpa using (h.row_iff hbuf hr _).mp hold)
    · rintro ⟨l, m⟩
      change (l, m) ∈ s.db.labelIndex ++ (Change.newLabels labels r).map (·, nodeId) ↔ _
      rw [List.mem_append, h.row_iff hbuf hr]
      by_cases hm : m = nodeId
      · simp [hm]
      · simp [hm, Ne.symm hm]
  | removeLabels nodeId labels =>
    cases hrun
    have hbuf : s.buf = {} := hout.resolve_left nofun
    refine Change.onNode_cases (P := HoldsLabels) h fun r hr => ?_
    refine holdsLabels_setNode (q := ⟨r.labels.filter (· ∉ labels), r.properties⟩) hbuf h hr (h.nodup.filter _) ?_
    rintro ⟨l, m⟩
    rw [List.mem_filter, h.row_iff hbuf hr]
    by_cases hm : m = nodeId <;> simp [hm]
  | deleteNode via nodeId =>
    cases hrun
    have hdeleted := holdsLabels_deleteNode (hout.resolve_left nofun) h nodeId
    cases via with
    | api | apiDetach => exact Change.onNode_cases (P := HoldsLabels) h fun _ _ => hdeleted.of_same rfl
    | node | detach | path => exact hdeleted
  | flush =>
    cases hrun
    exact h.of_same (congrArg (s.db.nodes, ·) (List.append_nil _))
  | abandon =>
    cases hrun
    have hbuf : s.buf = {} := hP.2 rfl
    refine h.of_same ?_
    unfold labelPart
    rw [hbuf]
  | clear =>
    cases hrun
    have hbuf : s.buf = {} := hout.resolve_left nofun
    change Table.Holds ([] ++ s.buf.labelIndex) (Change.clearRun s.db).IsLabelRow
    rw [hbuf]
    refine Table.holds_nil ?_
    rintro row ⟨r, hr, -⟩
    cases hr
  | dropIndex label key =>
    cases hrun
    obtain ⟨catalog, rows, heq⟩ := s.db.dropPropertyIndex_eq label key
    apply h.of_same
    change labelPart { s with db := s.db.dropPropertyIndex label key } = labelPart s
    rw [heq]
    rfl
  | createConstraint label key kind =>
    cases hrun
    obtain ⟨catalog, heq⟩ := s.db.createConstraint_eq label key kind
    apply h.of_same
    change labelPart { s with db := s.db.createConstraint label key kind } = labelPart s
    rw [heq]
    rfl
  | setEdgeProps | deleteEdge | createIndex | dropConstraint | beginQuery =>
    cases hrun
    exact h.of_same rfl

end CatalogAux

open CatalogAux

/-- In every run of calls that give no label twice and whose creations, if they fail inside of `FOREACH`, have collected no
index rows, the catalog tables follow the store in every state that is reached. -/
theorem catalog_tables_follow (W : World ch) {calls : List (Call ch)} {s : Session}
    (hcalls : Machine.EveryCall (Call.step W) (Call.Commits W CollectsAll) {} calls)
    (hrun : Machine.run (Call.step W) {} calls = some s) : s.db.CatalogFollows := by
  have hkept : (s.db.Numbered ∧ HoldsLabels s ∧ EdgesFollow s) ∧ s.buf = {} := by
    refine run_keeps_outsideBuffer (I := fun s => s.db.Numbered ∧ HoldsLabels s ∧ EdgesFollow s) ?_ ?_ rfl ?_ hcalls hrun
    · rintro c s s' hP hout ⟨hnumbered, hlabels, hedges⟩ hrun
      exact ⟨numbered_run hnumbered hrun, holdsLabels_run hP hout hnumbered hlabels hrun, edgesFollow_run hP hout hedges hrun⟩
    · rintro s s' hbuf ⟨hnumbered, hlabels, hedges⟩
      refine ⟨numbered_rollback hnumbered s', hlabels.of_same ?_, hedges.of_same ?_⟩
      · change (s.db.nodes, s.db.labelIndex ++ []) = labelPart s
        unfold labelPart
        rw [hbuf]
      · change (s.db.edges, s.db.edgeTypeSrc, s.db.edgeTypeDst, [], []) = edgePart s
        unfold edgePart
        rw [hbuf]
    · refine ⟨numbered_empty, ?_, ?_⟩
      · refine Table.holds_nil ?_
        rintro row ⟨r, hr, -⟩
        cases hr
      · exact ⟨.nil, .nil⟩
  obtain ⟨⟨-, hlabels, hedges⟩, hbuf⟩ := hkept
  obtain ⟨hsrc, hdst⟩ := hedges
  unfold HoldsLabels at hlabels
  rw [hbuf, List.append_nil] at hlabels hsrc hdst
  exact ⟨hlabels, hsrc, hdst⟩

open Sample

/-- A pair of nodes is created, and one of them is deleted with its relationship. -/
theorem catalog_tables_follow_pair : ∃ s,
    Machine.run (Call.step World.plain) {} [createPair, deleteAll "A" true] = some s ∧ s.db.CatalogFollows := by
  have hcalls : Machine.EveryCall (Call.step World.plain) (Call.Commits World.plain CollectsAll) {}
      [createPair, deleteAll "A" true] := by
    decide +kernel
  have hrun : (Machine.run (Call.step World.plain) {} [createPair, deleteAll "A" true]).isSome := by
    decide +kernel
  obtain ⟨s, hs⟩ := Option.isSome_iff_exists.mp hrun
  exact ⟨s, hs, catalog_tables_follow World.plain hcalls hs⟩

/-- `MATCH (n:A) FOREACH (x IN [0] | CREATE (:C), (:D {k: n.k}))` does not fail, and creates the first node without its row:
the second node is not created as `n` is not known inside. -/
theorem foreach_loses_rows : ∃ s, Machine.run (Call.step World.plain) {} [createPair,
      .cypher (.foreach (matchLabel "A") "x" (.list [.intLit 0]) (.createPattern (.read World.plain .singleRow)
        [⟨none, [nodePattern none "C" []]⟩, ⟨none, [nodePattern none "D" [("k", .property (.var "n") "k")]]⟩])) ∅] = some s ∧
    ¬s.db.CatalogFollows := by
  have hrun : (Machine.run (Call.step World.plain) {} [createPair,
      .cypher (.foreach (matchLabel "A") "x" (.list [.intLit 0]) (.createPattern (.read World.plain .singleRow)
        [⟨none, [nodePattern none "C" []]⟩, ⟨none, [nodePattern none "D" [("k", .property (.var "n") "k")]]⟩])) ∅]).any
      (fun s => decide (s.db.findNode 3 = some ⟨["C"], []⟩ ∧ ("C", 3) ∉ s.db.labelIndex)) = true := by
    decide +kernel
  obtain ⟨s, hs, hlost⟩ := (Option.any_eq_true _ _).mp hrun
  obtain ⟨hlive, hrow⟩ := of_decide_eq_true hlost
  refine ⟨s, hs, fun hfollows => hrow ?_⟩
  exact (hfollows.label_index.mem_iff _).mpr ⟨_, hlive, List.mem_singleton_self "C"⟩

end PgEddy
