import PgEddy.Lemmas.IndexRows

/-!
# Unique constraints

A `UNIQUE` constraint is checked for a node that a `CREATE` or a `MERGE` makes, other than one that a relationship leads to, and
against the rows that the property index has for the text of its value. It registers no index. While it is registered, two
nodes get equal values only by a change that is not checked, or when the index does not have the other node.
-/

namespace PgEddy

variable {ch : Chrono} {W : World ch}

/-- The value of a property of a node with the label, if it is not null. -/
def NodeEntry.valueOf (label key : String) (r : NodeEntry) : Option Json :=
  if label ∈ r.labels then (r.properties.lookup key).filter (· ≠ .null) else none

/-- The value of a property of a live node with the label, if it is not null. -/
def Db.valueAt (db : Db) (label key : String) (nodeId : Int64) : Option Json :=
  (db.findNode nodeId).bind (·.valueOf label key)

/-- No two live nodes with the label that were not there before have values of the property that count as the same. -/
def Db.UniqueSince (same : Json → Json → Prop) (label key : String) (before db : Db) : Prop :=
  ∀ m n a b, m ≠ n → before.findNode m = none → before.findNode n = none →
    db.valueAt label key m = some a → db.valueAt label key n = some b → ¬same a b

/-- The value that the code compares with those of the property index. -/
def Change.checkedValue (key : String) : Change → Option Json
  | .createNode .pattern _ props => props.lookup key
  | _ => none

/-- A change that gives a node a value that counts as the same as the one of another node is checked, and the index has the
other node with its text. -/
def ChecksUnique (same : Json → Json → Prop) (label key : String) (before : Db) (e : Change × Session) : Prop :=
  ∀ x ∈ e.1.newEntry e.2.db, ∀ m ∈ e.2.db.nodes.map (·.1), m ≠ x.1 → before.findNode m = none → before.findNode x.1 = none →
    ∀ a ∈ e.2.db.valueAt label key m, ∀ b ∈ x.2.valueOf label key, same a b ∨ same b a →
      (e.1.checkedValue key).any fun v => (⟨label, key, v, m⟩ : PropIndexRow) ∈ e.2.db.propValueIndex

instance (same : Json → Json → Prop) [DecidableRel same] (label key : String) (before : Db) :
    DecidablePred (ChecksUnique same label key before) := fun _ =>
  -- The nodes are those of the list: `Int64` is a finite type, and its values must not be gone through.
  @Option.decidableForallMem _ _ (fun _ => List.decidableBAll _ _) _

/-- The change drops the constraint. -/
def Change.drops (label key : String) : Change → Bool
  | .dropConstraint l k .unique => l = label && k = key
  | _ => false

/-- The change leaves the constraint registered. -/
def LeavesConstraint (label key : String) (e : Change × Session) : Prop := e.1.drops label key = false

instance (label key : String) : DecidablePred (LeavesConstraint label key) := fun e =>
  inferInstanceAs (Decidable (e.1.drops label key = false))

namespace UniqueAux

theorem constraint_indexNodeUpdate (nodeId : Int64) (labels : List String) (props : List (String × Json)) (s : Session) :
    (s.indexNodeUpdate nodeId labels props).db.constraintCatalog = s.db.constraintCatalog := by
  obtain ⟨rows, looked, heq⟩ := Session.indexNodeUpdate_eq nodeId props labels s
  rw [heq]

/-- A constraint stays registered while it is not dropped. -/
theorem constraint_run {label key : String} {c : Change} {s s' : Session} (hleaves : LeavesConstraint label key (c, s))
    (h : (label, key, ConstraintKind.unique) ∈ s.db.constraintCatalog) (hrun : c.run s = (s', .ok ())) :
    (label, key, ConstraintKind.unique) ∈ s'.db.constraintCatalog := by
  cases c with
  | createNode via labels props =>
    obtain ⟨seq, rows, looked, -, rfl⟩ := Change.run_createNode hrun
    cases via <;> exact h
  | createEdge api relType source target props =>
    obtain ⟨seq, -, -, -, rfl⟩ := Change.run_createEdge hrun
    cases api <;> exact h
  | updateNode | setProps =>
    cases hrun
    refine Change.onNode_cases (P := fun t => _ ∈ t.db.constraintCatalog) h fun r _ => ?_
    rw [constraint_indexNodeUpdate]
    exact h
  | removeProp | addLabels | removeLabels =>
    cases hrun
    exact Change.onNode_cases (P := fun t => _ ∈ t.db.constraintCatalog) h fun _ _ => h
  | deleteNode via nodeId =>
    cases hrun
    cases via with
    | api | apiDetach => exact Change.onNode_cases (P := fun t => _ ∈ t.db.constraintCatalog) h fun _ _ => h
    | node | detach | path => exact h
  | dropIndex l k =>
    cases hrun
    obtain ⟨catalog, rows, heq⟩ := s.db.dropPropertyIndex_eq l k
    change _ ∈ (s.db.dropPropertyIndex l k).constraintCatalog
    rw [heq]
    exact h
  | createConstraint l k kind =>
    cases hrun
    change _ ∈ (s.db.createConstraint l k kind).constraintCatalog
    unfold Db.createConstraint
    split
    · exact h
    · exact List.mem_append_left _ h
  | dropConstraint l k kind =>
    cases hrun
    refine List.mem_filter.mpr ⟨h, decide_eq_true ?_⟩
    rintro ⟨⟩
    simp [LeavesConstraint, Change.drops] at hleaves
  | setEdgeProps | deleteEdge | flush | abandon | createIndex | clear | beginQuery =>
    cases hrun
    exact h

/-- A node of a pattern is created when the check of its values finds no violation. -/
theorem uniqueViolation_createNode {labels : List String} {props : List (String × Json)} {s s' : Session}
    (h : (Change.createNode .pattern labels props).run s = (s', .ok ())) :
    s'.db.uniqueViolation s'.db.lastNodeId labels props = none := by
  simp only [Change.run] at h
  split at h
  · cases h
  · rename_i seq hseq
    simp only [Change.createNodeRun] at h
    split at h
    · cases h
    · rename_i hnone
      cases h
      rw [Session.lastNodeId_indexNodeInsert]
      exact hnone

/-- Without a violation the index has no other node under the text of a value. -/
theorem no_row_of_uniqueViolation {db : Db} {nodeId : Int64} {labels : List String} {props : List (String × Json)}
    (h : db.uniqueViolation nodeId labels props = none) {label key : String} {v : Json} (hlabel : label ∈ labels)
    (hlookup : props.lookup key = some v) (hnull : v ≠ .null) (hconstraint : (label, key, .unique) ∈ db.constraintCatalog)
    {m : Int64} (hne : m ≠ nodeId) : (⟨label, key, v, m⟩ : PropIndexRow) ∉ db.propValueIndex := by
  intro hrow
  have hprop : (key, v) ∈ props := by
    obtain ⟨before, after, heq, -⟩ := List.lookup_eq_some_iff.mp hlookup
    rw [heq]
    exact List.mem_append_right _ (List.mem_cons_self ..)
  have hnone := List.findSome?_eq_none_iff.mp (List.findSome?_eq_none_iff.mp h label hlabel) (key, v) hprop
  simp only at hnone
  rw [if_pos ⟨hconstraint, hnull⟩, Option.map_eq_none_iff, Db.uniqueClash, Option.map_eq_none_iff] at hnone
  have hfind := List.find?_eq_none.mp hnone _ hrow
  simp [hne] at hfind

/-- The value of a live node. -/
theorem valueAt_eq_some {db : Db} {label key : String} {m : Int64} {a : Json} (h : db.valueAt label key m = some a) :
    ∃ r, db.findNode m = some r ∧ r.valueOf label key = some a := Option.bind_eq_some_iff.mp h

theorem valueAt_of_findNode {db : Db} {label key : String} {m : Int64} {r : NodeEntry} {a : Json}
    (hfind : db.findNode m = some r) (hvalue : r.valueOf label key = some a) : db.valueAt label key m = some a :=
  Option.bind_eq_some_iff.mpr ⟨r, hfind, hvalue⟩

/-- The given value behind the stored one of a new node. -/
theorem given_of_valueOf {label key : String} {labels : List String} {props : List (String × Json)} {b : Json}
    (h : (⟨labels, storedFields props⟩ : NodeEntry).valueOf label key = some b) :
    label ∈ labels ∧ ∃ v, props.lookup key = some v ∧ v ≠ .null := by
  unfold NodeEntry.valueOf at h
  split at h
  · rename_i hlabel
    obtain ⟨hlookup, hnull⟩ := Option.filter_eq_some_iff.mp h
    rw [StoredAux.lookup_storedFields] at hlookup
    obtain ⟨v, hv, rfl⟩ := Option.map_eq_some_iff.mp hlookup
    refine ⟨hlabel, v, hv, ?_⟩
    rintro rfl
    simp [Json.stored] at hnull
  · cases h

/-- A node that a change writes gets no value that another one has, where the change is checked if it has to be. -/
theorem no_clash {same : Json → Json → Prop} {label key : String} {before : Db} {c : Change} {s s' : Session}
    (hconstraint : (label, key, .unique) ∈ s.db.constraintCatalog)
    (hchecks : ChecksUnique same label key before (c, s)) (hrun : c.run s = (s', .ok ())) {m n : Int64} {r : NodeEntry} {a b : Json}
    (hne : m ≠ n) (hm : before.findNode m = none) (hn : before.findNode n = none) (ha : s.db.valueAt label key m = some a)
    (hentry : c.newEntry s.db = some (n, r)) (hb : r.valueOf label key = some b) : ¬(same a b ∨ same b a) := by
  intro hsame
  obtain ⟨q, hq, -⟩ := valueAt_eq_some ha
  obtain ⟨v, hv, hrow⟩ := (Option.any_eq_true _ _).mp
    (hchecks (n, r) hentry m (Db.mem_nodes_of_findNode hq) hne hm hn a ha b hb hsame)
  have hrow := of_decide_eq_true hrow
  cases c with
  | createNode via labels props =>
    cases via with
    | pattern =>
      cases hentry
      obtain ⟨hlabel, w, hw, hnull⟩ := given_of_valueOf hb
      cases hw.symm.trans hv
      have hviolation := uniqueViolation_createNode hrun
      have hindex := Change.propValueIndex_createNode hrun
      obtain ⟨seq, rows, looked, hseq, rfl⟩ := Change.run_createNode hrun
      refine no_row_of_uniqueViolation hviolation hlabel hv hnull hconstraint (m := m) ?_ ?_
      · rintro rfl
        exact hne (congrArg Int64.ofNat (Db.nextval_eq_some hseq).1)
      · rw [hindex]
        exact List.mem_append_left _ hrow
    | api | destination => cases hv
  | _ => cases hv

/-- The values stay different under a change that is checked where it has to be. -/
theorem uniqueSince_run {same : Json → Json → Prop} {label key : String} {before : Db} {c : Change} {s s' : Session}
    (hconstraint : (label, key, .unique) ∈ s.db.constraintCatalog)
    (hchecks : ChecksUnique same label key before (c, s)) (h : Db.UniqueSince same label key before s.db)
    (hrun : c.run s = (s', .ok ())) : Db.UniqueSince same label key before s'.db := by
  intro m n a b hne hm hn ha hb hsame
  obtain ⟨q, hq, haq⟩ := valueAt_eq_some ha
  obtain ⟨r, hr, hbr⟩ := valueAt_eq_some hb
  rcases Change.findNode_run hrun hq with hqold | hqnew <;> rcases Change.findNode_run hrun hr with hrold | hrnew
  · exact h m n a b hne hm hn (valueAt_of_findNode hqold haq) (valueAt_of_findNode hrold hbr) hsame
  · exact no_clash hconstraint hchecks hrun hne hm hn (valueAt_of_findNode hqold haq) hrnew hbr (.inl hsame)
  · exact no_clash hconstraint hchecks hrun hne.symm hn hm (valueAt_of_findNode hrold hbr) hqnew haq (.inr hsame)
  · cases hqnew.symm.trans hrnew
    exact hne rfl

end UniqueAux

open UniqueAux

open Sample

/-- `CREATE CONSTRAINT` of a unique `k` for `A`. -/
def uniqueConstraint : PlainCall := .cypher (.createConstraint "A" "k" .unique) ∅

/-- `CREATE (:A {k: value})` -/
def createValue (value : Bool) : PlainCall :=
  .cypher (.createPattern (.read World.plain .singleRow) [⟨none, [nodePattern none "A" [("k", .boolLit value)]]⟩]) ∅

end PgEddy
