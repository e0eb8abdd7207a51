import PgEddy.Lemmas.Calls

/-!
# What changes do

The live nodes after each operation on them, the parts of a session that the upkeep of the property index leaves alone, and
what is known of a session after a new node or a new relationship.
-/

namespace PgEddy

/-! ## Live nodes -/

namespace Db

variable {db : Db} {nodeId m : Int64} {r : NodeEntry}

theorem findNode_insertNode (db : Db) (nodeId m : Int64) (r : NodeEntry) :
    (db.insertNode nodeId r).findNode m = (db.findNode m).or (if m = nodeId then some r else none) := by
  unfold insertNode findNode
  rw [List.lookup_append]
  by_cases h : m = nodeId
  · subst h; simp
  · simp [List.lookup_cons, h, beq_eq_false_iff_ne.mpr h]

theorem findNode_setNode (db : Db) (nodeId m : Int64) (r : NodeEntry) :
    (db.setNode nodeId r).findNode m = if m = nodeId then (db.findNode m).map fun _ => r else db.findNode m := by
  unfold setNode findNode
  induction db.nodes with
  | nil => simp
  | cons n nodes ih =>
    obtain ⟨k, r'⟩ := n
    rw [List.map_cons]
    by_cases hk : k = nodeId
    · subst hk
      by_cases hm : m = k
      · subst hm; simp
      · simpa [List.lookup_cons, beq_eq_false_iff_ne.mpr hm, hm] using ih
    · by_cases hm : m = k
      · subst hm; simp [hk]
      · simpa [List.lookup_cons, hk, beq_eq_false_iff_ne.mpr hm] using ih

theorem findNode_removeNode (db : Db) (nodeId m : Int64) :
    (db.removeNode nodeId).findNode m = if m = nodeId then none else db.findNode m := by
  unfold removeNode findNode
  induction db.nodes with
  | nil => simp
  | cons n nodes ih =>
    obtain ⟨k, r⟩ := n
    by_cases hk : k = nodeId
    · subst hk
      rw [List.filter_cons_of_neg (by simp), ih]
      by_cases hm : m = k
      · simp [hm]
      · simp [List.lookup_cons, hm, beq_eq_false_iff_ne.mpr hm]
    · rw [List.filter_cons_of_pos (by simpa using hk)]
      by_cases hm : m = k
      · subst hm; simp [hk]
      · simpa [List.lookup_cons, beq_eq_false_iff_ne.mpr hm] using ih

/-- A live node is in the table of nodes. -/
theorem mem_nodes_of_findNode (h : db.findNode m = some r) : m ∈ db.nodes.map (·.1) := by
  obtain ⟨n, hn, heq⟩ := List.lookup_isSome_iff.mp (Option.isSome_of_eq_some h)
  exact List.mem_map.mpr ⟨n, hn, (eq_of_beq heq).symm⟩

/-- The sequence of nodes has given every id of a live node. -/
def Numbered (db : Db) : Prop := ∀ nodeId r, db.findNode nodeId = some r → ∃ k ≤ db.nodeSeq, nodeId = Int64.ofNat k

theorem nextval_eq_some {seq next : Nat} (h : nextval seq = some next) : next = seq + 1 ∧ seq + 1 < 2 ^ 63 := by
  unfold nextval at h
  split at h
  · rename_i hlt
    exact ⟨(Option.some.inj h).symm, hlt⟩
  · cases h

/-- The next id of the sequence is that of no live node. -/
theorem Numbered.fresh {db : Db} (h : db.Numbered) {seq : Nat} (hseq : nextval db.nodeSeq = some seq) :
    db.findNode (Int64.ofNat seq) = none := by
  obtain ⟨rfl, hlt⟩ := nextval_eq_some hseq
  cases hfind : db.findNode (Int64.ofNat (db.nodeSeq + 1)) with
  | none => rfl
  | some r =>
    obtain ⟨k, hk, heq⟩ := h _ r hfind
    have hint := congrArg Int64.toInt heq
    rw [Int64.toInt_ofNat_of_lt hlt, Int64.toInt_ofNat_of_lt (by omega)] at hint
    omega

end Db

/-! ## Indexes and constraints -/

theorem Db.dropPropertyIndex_eq (db : Db) (label key : String) : ∃ catalog rows,
    db.dropPropertyIndex label key = { db with propIndexCatalog := catalog, propValueIndex := rows } := by
  unfold dropPropertyIndex
  split
  · exact ⟨_, _, rfl⟩
  · exact ⟨db.propIndexCatalog, db.propValueIndex, rfl⟩

theorem Db.createConstraint_eq (db : Db) (label key : String) (kind : ConstraintKind) : ∃ catalog,
    db.createConstraint label key kind = { db with constraintCatalog := catalog } := by
  unfold createConstraint
  split
  · exact ⟨db.constraintCatalog, rfl⟩
  · exact ⟨_, rfl⟩

/-! ## The upkeep of the property index -/

namespace Session

variable (nodeId : Int64) (props : List (String × Json)) (labels : List String) (s : Session)

theorem lookUpIndexed_eq (s : Session) (label : String) :
    ∃ indexedProps, (s.lookUpIndexed label).2 = { s with indexedProps := indexedProps } := by
  unfold lookUpIndexed
  split
  · exact ⟨s.indexedProps, rfl⟩
  · exact ⟨_, rfl⟩

/-- The upkeep of the property index writes to the index and to what the session has looked up. -/
theorem indexNodeInsert_eq : ∃ rows indexedProps, indexNodeInsert nodeId props labels s =
    { s with db := { s.db with propValueIndex := rows }, indexedProps := indexedProps } := by
  induction labels generalizing s with
  | nil => exact ⟨s.db.propValueIndex, s.indexedProps, rfl⟩
  | cons label labels ih =>
    obtain ⟨looked, hlooked⟩ := lookUpIndexed_eq s label
    have hrest := fun rows => ih ((s.lookUpIndexed label).2.onDb fun db => { db with propValueIndex := db.propValueIndex ++ rows })
    obtain ⟨rows, indexedProps, h⟩ := hrest ((s.lookUpIndexed label).1.filterMap fun key => Db.indexRow? label key nodeId props)
    refine ⟨rows, indexedProps, h.trans ?_⟩
    rw [hlooked]
    rfl

theorem lastNodeId_indexNodeInsert : (indexNodeInsert nodeId props labels s).db.lastNodeId = s.db.lastNodeId := by
  obtain ⟨rows, indexedProps, heq⟩ := indexNodeInsert_eq nodeId props labels s
  rw [heq]
  rfl

theorem indexNodeUpdate_eq : ∃ rows indexedProps, indexNodeUpdate nodeId labels props s =
    { s with db := { s.db with propValueIndex := rows }, indexedProps := indexedProps } :=
  indexNodeInsert_eq nodeId props labels (s.onDb (·.indexNodeDelete nodeId))

end Session

/-! ## New nodes and relationships -/

namespace Change

variable {s s' : Session} {labels : List String} {props : List (String × Json)}

/-- The session with a new node, but for the property index: its index rows are written at once or collected. -/
def withNode (via : CreatePath) (labels : List String) (props : List (String × Json)) (seq : Nat) (s : Session) : Session :=
  let rows := labels.map (·, Int64.ofNat seq)
  let s := s.onDb fun db => { db with nodeSeq := seq }.insertNode (Int64.ofNat seq) ⟨labels, storedFields props⟩
  if via = .api then s.onDb (·.addLabelRows rows) else { s with buf := { s.buf with labelIndex := s.buf.labelIndex ++ rows } }

theorem run_createNode {via : CreatePath} (h : (createNode via labels props).run s = (s', .ok ())) :
    ∃ seq rows indexedProps, nextval s.db.nodeSeq = some seq ∧
      s' = { withNode via labels props seq s with
        db := { (withNode via labels props seq s).db with propValueIndex := rows }, indexedProps := indexedProps } := by
  simp only [run] at h
  split at h
  · cases h
  · rename_i seq hseq
    cases via with
    | api =>
      obtain ⟨rows, indexedProps, hindex⟩ := Session.indexNodeInsert_eq (Int64.ofNat seq) props labels (withNode .api labels props seq s)
      refine ⟨seq, rows, indexedProps, hseq, ?_⟩
      rw [← hindex]
      cases h
      rfl
    | destination =>
      refine ⟨seq, s.db.propValueIndex, s.indexedProps, hseq, ?_⟩
      cases h
      rfl
    | pattern =>
      obtain ⟨rows, indexedProps, hindex⟩ :=
        Session.indexNodeInsert_eq (Int64.ofNat seq) props labels (withNode .pattern labels props seq s)
      refine ⟨seq, rows, indexedProps, hseq, ?_⟩
      rw [← hindex]
      simp only [createNodeRun] at h
      split at h
      · cases h
      · cases h
        rfl

/-- The session with a new relationship: its index rows are written at once or collected. -/
def withEdge (api : Bool) (relType : String) (source target : Int64) (props : List (String × Json)) (seq : Nat) (s : Session) :
    Session :=
  let edgeId := Int64.ofNat seq
  let db := { s.db with edgeSeq := seq, edges := s.db.edges ++ [⟨edgeId, relType, source, target, storedFields props⟩] }
  if api then
    { s with db := { db with
        edgeTypeSrc := db.edgeTypeSrc ++ [(relType, source, edgeId)]
        edgeTypeDst := db.edgeTypeDst ++ [(relType, target, edgeId)] } }
  else
    { s with
      db := db
      buf := { s.buf with
        edgeTypeSrc := s.buf.edgeTypeSrc ++ [(relType, source, edgeId)]
        edgeTypeDst := s.buf.edgeTypeDst ++ [(relType, target, edgeId)] } }

theorem run_createEdge {api : Bool} {relType : String} {source target : Int64}
    (h : (createEdge api relType source target props).run s = (s', .ok ())) :
    ∃ seq, nextval s.db.edgeSeq = some seq ∧ (s.db.findNode source).isSome ∧ (s.db.findNode target).isSome ∧
      s' = withEdge api relType source target props seq s := by
  simp only [run] at h
  split at h
  · cases h
  · rename_i seq hseq
    refine ⟨seq, hseq, ?_⟩
    unfold createEdgeRun Db.insertEdge at h
    simp only at h
    split at h
    · cases h
    · rename_i db hdb
      split at hdb
      · cases hdb
      · rename_i hsource
        split at hdb
        · cases hdb
        · rename_i htarget
          refine ⟨Option.isNone_eq_false_iff.mp (Bool.eq_false_iff.mpr hsource),
            Option.isNone_eq_false_iff.mp (Bool.eq_false_iff.mpr htarget), ?_⟩
          cases hdb
          cases api <;> · cases h; rfl

end Change

/-! ## The node that a change writes -/

/-- The node that a change creates or changes, as it is then. -/
def Change.newEntry (c : Change) (db : Db) : Option (Int64 × NodeEntry) :=
  match c with
  | .createNode _ labels props => some (Int64.ofNat (db.nodeSeq + 1), ⟨labels, storedFields props⟩)
  | .updateNode nodeId labels props => (db.findNode nodeId).map fun _ => (nodeId, ⟨labels, storedFields props⟩)
  | .setProps nodeId props => (db.findNode nodeId).map fun r => (nodeId, ⟨r.labels, storedFields props⟩)
  | .removeProp nodeId key =>
    (db.findNode nodeId).map fun r => (nodeId, ⟨r.labels, storedFields (removeKey r.properties key)⟩)
  | .addLabels nodeId labels =>
    (db.findNode nodeId).map fun r => (nodeId, ⟨r.labels ++ newLabels labels r, r.properties⟩)
  | .removeLabels nodeId labels =>
    (db.findNode nodeId).map fun r => (nodeId, ⟨r.labels.filter (· ∉ labels), r.properties⟩)
  | _ => none

namespace EntryAux

variable {m nodeId : Int64} {r q : NodeEntry} {db db' : Db}

theorem findNode_congr (hnodes : db'.nodes = db.nodes) (m : Int64) : db'.findNode m = db.findNode m := by
  unfold Db.findNode
  rw [hnodes]

theorem of_setNode (h : (db.setNode nodeId q).findNode m = some r) : db.findNode m = some r ∨ (nodeId, q) = (m, r) := by
  rw [Db.findNode_setNode] at h
  split at h
  · rename_i heq
    obtain ⟨_, -, rfl⟩ := Option.map_eq_some_iff.mp h
    exact .inr (heq ▸ rfl)
  · exact .inl h

/-- A change of a live node writes its entry. -/
theorem of_onNode {s : Session} {f : NodeEntry → Session → Session} (entry : NodeEntry → NodeEntry)
    (hf : ∀ r, (f r s).db.nodes = (s.db.setNode nodeId (entry r)).nodes)
    (h : (Change.onNode nodeId f s).db.findNode m = some r) :
    s.db.findNode m = some r ∨ (s.db.findNode nodeId).map (fun q => (nodeId, entry q)) = some (m, r) := by
  unfold Change.onNode at h
  split at h
  · rename_i q hq
    rw [findNode_congr (hf q)] at h
    exact (of_setNode h).imp_right fun heq => by rw [hq, Option.map_some, heq]
  · exact .inl h

theorem nodes_indexNodeUpdate (labels : List String) (props : List (String × Json)) (s : Session) :
    (s.indexNodeUpdate nodeId labels props).db.nodes = s.db.nodes := by
  obtain ⟨rows, looked, heq⟩ := Session.indexNodeUpdate_eq nodeId props labels s
  rw [heq]

theorem nodeSeq_indexNodeUpdate (labels : List String) (props : List (String × Json)) (s : Session) :
    (s.indexNodeUpdate nodeId labels props).db.nodeSeq = s.db.nodeSeq := by
  obtain ⟨rows, looked, heq⟩ := Session.indexNodeUpdate_eq nodeId props labels s
  rw [heq]

end EntryAux

open EntryAux in
/-- A live node after a change was there before as it is, or the change writes it. -/
theorem Change.findNode_run {c : Change} {s s' : Session} (hrun : c.run s = (s', .ok ())) {m : Int64} {r : NodeEntry}
    (h : s'.db.findNode m = some r) : s.db.findNode m = some r ∨ c.newEntry s.db = some (m, r) := by
  cases c with
  | createNode via labels props =>
    obtain ⟨seq, rows, looked, hseq, rfl⟩ := run_createNode hrun
    have hnodes : (withNode via labels props seq s).db.nodes =
        (s.db.insertNode (Int64.ofNat seq) ⟨labels, storedFields props⟩).nodes := by
      cases via <;> rfl
    have h := (findNode_congr hnodes m).symm.trans h
    rw [Db.findNode_insertNode] at h
    rcases Option.or_eq_some_iff.mp h with hold | ⟨-, hnew⟩
    · exact .inl hold
    · split at hnew
      · rename_i heq
        cases hnew
        rw [heq, (Db.nextval_eq_some hseq).1]
        exact .inr rfl
      · cases hnew
  | createEdge api relType source target props =>
    obtain ⟨seq, -, -, -, rfl⟩ := run_createEdge hrun
    cases api <;> exact .inl h
  | updateNode nodeId labels props =>
    cases hrun
    exact of_onNode (fun _ => ⟨labels, storedFields props⟩) (fun _ => nodes_indexNodeUpdate _ _ _) h
  | setProps nodeId props =>
    cases hrun
    exact of_onNode (fun r => ⟨r.labels, storedFields props⟩) (fun _ => nodes_indexNodeUpdate _ _ _) h
  | removeProp nodeId key =>
    cases hrun
    exact of_onNode (fun r => ⟨r.labels, storedFields (removeKey r.properties key)⟩) (fun _ => rfl) h
  | addLabels nodeId labels =>
    cases hrun
    exact of_onNode (fun r => ⟨r.labels ++ newLabels labels r, r.properties⟩) (fun _ => rfl) h
  | removeLabels nodeId labels =>
    cases hrun
    exact of_onNode (fun r => ⟨r.labels.filter (· ∉ labels), r.properties⟩) (fun _ => rfl) h
  | deleteNode via nodeId =>
    cases hrun
    have hremoved : ∀ db : Db, db.nodes = (s.db.removeNode nodeId).nodes → db.findNode m = some r → s.db.findNode m = some r := by
      intro db hnodes hdb
      rw [findNode_congr hnodes, Db.findNode_removeNode] at hdb
      split at hdb
      · cases hdb
      · exact hdb
    left
    cases via with
    | api | apiDetach =>
      change (onNode nodeId _ s).db.findNode m = some r at h
      unfold onNode at h
      split at h
      · exact hremoved _ rfl h
      · exact h
    | node | detach | path => exact hremoved _ rfl h
  | dropIndex label key =>
    cases hrun
    obtain ⟨catalog, rows, heq⟩ := s.db.dropPropertyIndex_eq label key
    change (s.db.dropPropertyIndex label key).findNode m = some r at h
    rw [heq] at h
    exact .inl h
  | createConstraint label key kind =>
    cases hrun
    obtain ⟨catalog, heq⟩ := s.db.createConstraint_eq label key kind
    change (s.db.createConstraint label key kind).findNode m = some r at h
    rw [heq] at h
    exact .inl h
  | clear =>
    cases hrun
    cases h
  | setEdgeProps | deleteEdge | flush | abandon | createIndex | dropConstraint | beginQuery =>
    cases hrun
    exact .inl h

/-! ## The ids of live nodes -/

/-- The sequence of nodes never goes back, except that `clear` starts it again. -/
theorem Change.nodeSeq_run {c : Change} {s s' : Session} (hclear : c ≠ .clear) (hrun : c.run s = (s', .ok ())) :
    s.db.nodeSeq ≤ s'.db.nodeSeq := by
  cases c with
  | createNode via labels props =>
    obtain ⟨seq, rows, looked, hseq, rfl⟩ := run_createNode hrun
    have hle : s.db.nodeSeq ≤ seq := (Db.nextval_eq_some hseq).1 ▸ Nat.le_succ _
    cases via <;> exact hle
  | createEdge api relType source target props =>
    obtain ⟨seq, -, -, -, rfl⟩ := run_createEdge hrun
    cases api <;> exact le_rfl
  | updateNode | setProps =>
    cases hrun
    refine onNode_cases (P := fun t => s.db.nodeSeq ≤ t.db.nodeSeq) le_rfl fun _ _ => ?_
    rw [EntryAux.nodeSeq_indexNodeUpdate]
    exact le_rfl
  | removeProp | addLabels | removeLabels =>
    cases hrun
    exact onNode_cases (P := fun t => s.db.nodeSeq ≤ t.db.nodeSeq) le_rfl fun _ _ => le_rfl
  | deleteNode via nodeId =>
    cases hrun
    cases via with
    | api | apiDetach => exact onNode_cases (P := fun t => s.db.nodeSeq ≤ t.db.nodeSeq) le_rfl fun _ _ => le_rfl
    | node | detach | path => exact le_rfl
  | dropIndex label key =>
    cases hrun
    obtain ⟨catalog, rows, heq⟩ := s.db.dropPropertyIndex_eq label key
    exact (congrArg Db.nodeSeq heq).ge
  | createConstraint label key kind =>
    cases hrun
    obtain ⟨catalog, heq⟩ := s.db.createConstraint_eq label key kind
    exact (congrArg Db.nodeSeq heq).ge
  | clear => exact absurd rfl hclear
  | setEdgeProps | deleteEdge | flush | abandon | createIndex | dropConstraint | beginQuery =>
    cases hrun
    exact le_rfl

/-- The ids of live nodes stay those that the sequence has given. -/
theorem numbered_run {c : Change} {s s' : Session} (h : s.db.Numbered) (hrun : c.run s = (s', .ok ())) : s'.db.Numbered := by
  intro m r hr
  by_cases hclear : c = .clear
  · subst hclear
    cases hrun
    cases hr
  · have hle := Change.nodeSeq_run hclear hrun
    rcases Change.findNode_run hrun hr with hold | hentry
    · obtain ⟨k, hk, hid⟩ := h m r hold
      exact ⟨k, hk.trans hle, hid⟩
    · cases c with
      | createNode via labels props =>
        obtain ⟨seq, rows, looked, hseq, rfl⟩ := Change.run_createNode hrun
        cases hentry
        refine ⟨seq, ?_, congrArg Int64.ofNat (Db.nextval_eq_some hseq).1.symm⟩
        cases via <;> exact le_rfl
      | updateNode | setProps | removeProp | addLabels | removeLabels =>
        obtain ⟨q, hq, heq⟩ := Option.map_eq_some_iff.mp hentry
        cases heq
        obtain ⟨k, hk, hid⟩ := h m q hq
        exact ⟨k, hk.trans hle, hid⟩
      | _ => cases hentry

theorem numbered_rollback {s : Session} (h : s.db.Numbered) (s' : Session) : (s.rollback s').db.Numbered := by
  intro m r hr
  obtain ⟨k, hk, hid⟩ := h m r hr
  exact ⟨k, hk.trans (Nat.le_max_left _ _), hid⟩

theorem numbered_empty : (({} : Session).db).Numbered := by
  intro m r hr
  cases hr

end PgEddy
