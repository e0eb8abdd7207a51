import PgEddy.Lemmas.IndexRows

/-!
# The property index

`prop_value_index` has one row for each live node, each of its labels and each of its properties that is not null and has a
registered index, over every run of calls whose changes all keep the index. These are the changes that ask for no entry the
code neglects: a node that a relationship of a pattern leads to, `REMOVE`, labels that are added or removed, and `DELETE` are
not seen by the index. The indexes that the session has looked up are those that are registered, a label is not given twice,
and an index is created when `label_index` is right.
-/

namespace PgEddy

variable {ch : Chrono} {W : World ch}

/-- The row of the index is for a live node, a label and a property of it, with its value, and for a registered index. -/
def Db.IsIndexRow (db : Db) (row : PropIndexRow) : Prop :=
  (row.label, row.key) ∈ db.propIndexCatalog ∧ ∃ r, db.findNode row.nodeId = some r ∧ row.label ∈ r.labels ∧
    r.properties.lookup row.key = some row.value ∧ row.value ≠ .null

/-! ## Changes that keep the index -/

/-- The entries that a change makes or takes away and that its code does nothing about. -/
def Change.neglects (c : Change) (db : Db) : List IndexEntry :=
  match c with
  | .createNode .destination labels props => db.indexEntries labels props
  | .removeProp nodeId key =>
    (db.findNode nodeId).elim [] fun r => db.indexEntries r.labels (r.properties.filter (·.1 = key))
  | .addLabels nodeId labels => (db.findNode nodeId).elim [] fun r => db.indexEntries (newLabels labels r) r.properties
  | .removeLabels nodeId labels =>
    (db.findNode nodeId).elim [] fun r => db.indexEntries (r.labels.filter (· ∈ labels)) r.properties
  | .deleteNode .node nodeId | .deleteNode .detach nodeId | .deleteNode .path nodeId =>
    (db.findNode nodeId).elim [] fun r => db.indexEntries r.labels r.properties
  | _ => []

/-- The labels and properties of the node whose rows the code of the change writes. -/
def Change.refreshes (c : Change) (db : Db) : Option (List String × List (String × Json)) :=
  match c with
  | .createNode .destination _ _ => none
  | .createNode _ labels props => some (labels, props)
  | .updateNode nodeId labels props => (db.findNode nodeId).map fun _ => (labels, props)
  | .setProps nodeId props => (db.findNode nodeId).map fun r => (r.labels, props)
  | _ => none

/-- The label of an index that is filled. -/
def Change.fills : Change → Option String
  | .createIndex label _ => some label
  | _ => none

def Change.clears : Change → Bool
  | .clear => true
  | _ => false

/-- Written anew, the rows are those of the registered indexes, each once, with the values that are stored. -/
structure Session.Refreshes (s : Session) (labels : List String) (props : List (String × Json)) : Prop where
  nodup : (s.db.indexEntries labels props).Nodup
  looked : (s.lookedUpEntries labels props).Perm (s.db.indexEntries labels props)
  stored : ∀ e ∈ s.db.indexEntries labels props, e.2.2.stored = e.2.2

instance (s : Session) (labels : List String) (props : List (String × Json)) : Decidable (s.Refreshes labels props) :=
  decidable_of_iff ((s.db.indexEntries labels props).Nodup ∧
      (s.lookedUpEntries labels props).Perm (s.db.indexEntries labels props) ∧
      ∀ e ∈ s.db.indexEntries labels props, e.2.2.stored = e.2.2)
    ⟨fun h => ⟨h.1, h.2.1, h.2.2⟩, fun h => ⟨h.nodup, h.looked, h.stored⟩⟩

/-- The nodes that `label_index` has for a label. -/
def Db.labelled (db : Db) (label : String) : List Int64 := (db.labelIndex.filter (·.1 = label)).map (·.2)

/-- `label_index` has the live nodes with the label, each once. -/
def Db.LabelIndexed (db : Db) (label : String) : Prop :=
  (db.labelled label).Nodup ∧ (∀ nodeId ∈ db.labelled label, (db.findNode nodeId).any (label ∈ ·.labels)) ∧
    ∀ nodeId ∈ db.nodes.map (·.1), (db.findNode nodeId).any (label ∈ ·.labels) → nodeId ∈ db.labelled label

-- The ids are those of the lists: `Int64` is a finite type, and its values must not be gone through.
instance (db : Db) (label : String) : Decidable (db.LabelIndexed label) :=
  @instDecidableAnd _ _ inferInstance (@instDecidableAnd _ _ (List.decidableBAll _ _) (List.decidableBAll _ _))

/-- A change that keeps the index. -/
structure KeepsIndex (e : Change × Session) : Prop where
  neglects : e.1.neglects e.2.db = []
  refreshes : ∀ x ∈ e.1.refreshes e.2.db, e.2.Refreshes x.1 x.2
  fills : ∀ label ∈ e.1.fills, e.2.db.LabelIndexed label
  clears : e.1.clears = true → e.2.db.propValueIndex = []

instance : DecidablePred KeepsIndex := fun e =>
  decidable_of_iff (e.1.neglects e.2.db = [] ∧ (∀ x ∈ e.1.refreshes e.2.db, e.2.Refreshes x.1 x.2) ∧
      (∀ label ∈ e.1.fills, e.2.db.LabelIndexed label) ∧ (e.1.clears = true → e.2.db.propValueIndex = []))
    ⟨fun h => ⟨h.1, h.2.1, h.2.2.1, h.2.2.2⟩, fun h => ⟨h.neglects, h.refreshes, h.fills, h.clears⟩⟩

namespace IndexAux

open StoredAux

/-! ## The rows that a database asks for -/

def entry (row : PropIndexRow) : IndexEntry := (row.label, row.key, row.value)

theorem mem_map_row {nodeId : Int64} {entries : List IndexEntry} {row : PropIndexRow} :
    row ∈ entries.map (IndexEntry.row nodeId) ↔ row.nodeId = nodeId ∧ entry row ∈ entries := by
  constructor
  · intro h
    obtain ⟨e, he, rfl⟩ := List.mem_map.mp h
    exact ⟨rfl, he⟩
  · rintro ⟨rfl, h⟩
    exact List.mem_map.mpr ⟨_, h, rfl⟩

/-- The rows of a live node are the entries for its labels and properties. -/
theorem isIndexRow_iff {db : Db} {row : PropIndexRow} {r : NodeEntry} (hlive : db.findNode row.nodeId = some r) :
    db.IsIndexRow row ↔ entry row ∈ db.indexEntries r.labels r.properties := by
  rw [mem_indexEntries, Db.IsIndexRow, hlive]
  simp only [Option.some.injEq, entry]
  constructor
  · rintro ⟨hindex, _, rfl, hlabel, hlookup, hne⟩
    exact ⟨hlabel, hindex, hlookup, hne⟩
  · rintro ⟨hlabel, hindex, hlookup, hne⟩
    exact ⟨hindex, r, rfl, hlabel, hlookup, hne⟩

theorem isIndexRow_congr {db db' : Db} (hnodes : db'.nodes = db.nodes) (hcatalog : db'.propIndexCatalog = db.propIndexCatalog)
    (row : PropIndexRow) : db'.IsIndexRow row ↔ db.IsIndexRow row := by
  unfold Db.IsIndexRow Db.findNode
  rw [hnodes, hcatalog]

theorem isIndexRow_insertNode {db : Db} {nodeId : Int64} {r : NodeEntry} (hnew : db.findNode nodeId = none) (row : PropIndexRow) :
    (db.insertNode nodeId r).IsIndexRow row ↔
      db.IsIndexRow row ∨ (row.nodeId = nodeId ∧ entry row ∈ db.indexEntries r.labels r.properties) := by
  by_cases hid : row.nodeId = nodeId
  · have hlive : (db.insertNode nodeId r).findNode row.nodeId = some r := by
      rw [Db.findNode_insertNode, hid, hnew, if_pos rfl, Option.none_or]
    rw [isIndexRow_iff hlive]
    constructor
    · exact fun h => .inr ⟨hid, h⟩
    · rintro (⟨-, r', hr', -⟩ | ⟨-, h⟩)
      · rw [hid, hnew] at hr'
        cases hr'
      · exact h
  · unfold Db.IsIndexRow
    rw [Db.findNode_insertNode, if_neg hid, Option.or_none]
    simp [hid, Db.insertNode]

theorem isIndexRow_setNode {db : Db} {nodeId : Int64} {r : NodeEntry} (hlive : (db.findNode nodeId).isSome) (row : PropIndexRow) :
    (db.setNode nodeId r).IsIndexRow row ↔
      if row.nodeId = nodeId then entry row ∈ db.indexEntries r.labels r.properties else db.IsIndexRow row := by
  obtain ⟨r', hr'⟩ := Option.isSome_iff_exists.mp hlive
  split
  · rename_i hid
    have hfind : (db.setNode nodeId r).findNode row.nodeId = some r := by
      rw [Db.findNode_setNode, if_pos hid, hid, hr', Option.map_some]
    rw [isIndexRow_iff hfind]
    rfl
  · rename_i hid
    unfold Db.IsIndexRow
    rw [Db.findNode_setNode, if_neg hid]
    rfl

theorem isIndexRow_removeNode (db : Db) (nodeId : Int64) (row : PropIndexRow) :
    (db.removeNode nodeId).IsIndexRow row ↔ db.IsIndexRow row ∧ row.nodeId ≠ nodeId := by
  unfold Db.IsIndexRow
  rw [Db.findNode_removeNode]
  by_cases hid : row.nodeId = nodeId
  · simp [hid]
  · simp [hid, Db.removeNode]

/-! ## Entries under changes of a node -/

theorem mem_indexEntries_stored {db : Db} {labels : List String} {props : List (String × Json)}
    (h : ∀ e ∈ db.indexEntries labels props, e.2.2.stored = e.2.2) (e : IndexEntry) :
    e ∈ db.indexEntries labels (storedFields props) ↔ e ∈ db.indexEntries labels props := by
  simp only [mem_indexEntries, lookup_storedFields, Option.map_eq_some_iff]
  constructor
  · rintro ⟨hlabel, hindex, ⟨v, hv, hstored⟩, hne⟩
    have hnull : v ≠ .null := by
      rintro rfl
      exact hne hstored.symm
    have hsame := h (e.1, e.2.1, v) (mem_indexEntries.mpr ⟨hlabel, hindex, hv, hnull⟩)
    exact ⟨hlabel, hindex, hv.trans (congrArg some (hsame.symm.trans hstored)), hne⟩
  · rintro ⟨hlabel, hindex, hv, hne⟩
    exact ⟨hlabel, hindex, ⟨_, hv, h e (mem_indexEntries.mpr ⟨hlabel, hindex, hv, hne⟩)⟩, hne⟩

theorem indexEntries_stored_eq_nil {db : Db} {labels : List String} {props : List (String × Json)}
    (h : db.indexEntries labels props = []) : db.indexEntries labels (storedFields props) = [] := by
  rw [List.eq_nil_iff_forall_not_mem] at h ⊢
  intro e he
  rw [mem_indexEntries_stored fun e he => absurd he (h e)] at he
  exact h e he

theorem lookup_removeKey (props : List (String × Json)) (key k : String) :
    (removeKey props key).lookup k = if k = key then none else props.lookup k := by
  unfold removeKey
  induction props with
  | nil => simp
  | cons f props ih =>
    obtain ⟨l, v⟩ := f
    by_cases hl : l = key
    · subst hl
      rw [List.filter_cons_of_neg (by simp), ih]
      by_cases hk : k = l
      · simp [hk]
      · simp [List.lookup_cons, hk, beq_eq_false_iff_ne.mpr hk]
    · rw [List.filter_cons_of_pos (by simpa using hl)]
      by_cases hk : k = l
      · subst hk; simp [hl]
      · simpa [List.lookup_cons, beq_eq_false_iff_ne.mpr hk] using ih

theorem lookup_filter_key (props : List (String × Json)) (key : String) :
    (props.filter (·.1 = key)).lookup key = props.lookup key := by
  induction props with
  | nil => rfl
  | cons f props ih =>
    obtain ⟨l, v⟩ := f
    by_cases hl : l = key
    · subst hl; simp
    · rw [List.filter_cons_of_neg (by simpa using hl), ih]
      simp [List.lookup_cons, beq_eq_false_iff_ne.mpr (Ne.symm hl)]

/-- Removing a property takes no entries away when no index asks for it. -/
theorem mem_indexEntries_removeKey {db : Db} {labels : List String} {props : List (String × Json)} {key : String}
    (h : db.indexEntries labels (props.filter (·.1 = key)) = []) (e : IndexEntry) :
    e ∈ db.indexEntries labels (removeKey props key) ↔ e ∈ db.indexEntries labels props := by
  simp only [mem_indexEntries, lookup_removeKey]
  by_cases hkey : e.2.1 = key
  · simp only [hkey, if_true, reduceCtorEq, false_and, and_false, false_iff]
    rintro ⟨hlabel, hindex, hlookup, hne⟩
    refine List.not_mem_nil (a := e) (h ▸ mem_indexEntries.mpr ⟨hlabel, ?_, ?_, hne⟩)
    · rwa [hkey]
    · rwa [hkey, lookup_filter_key]
  · simp only [hkey, if_false]

/-- More labels bring no entries when no index asks for them. -/
theorem mem_indexEntries_append {db : Db} {labels new : List String} {props : List (String × Json)}
    (h : db.indexEntries new props = []) (e : IndexEntry) :
    e ∈ db.indexEntries (labels ++ new) props ↔ e ∈ db.indexEntries labels props := by
  unfold Db.indexEntries at h ⊢
  rw [List.flatMap_append, h, List.append_nil]

/-- Fewer labels take no entries away when no index asks for those that go. -/
theorem mem_indexEntries_filter {db : Db} {labels gone : List String} {props : List (String × Json)}
    (h : db.indexEntries (labels.filter (· ∈ gone)) props = []) (e : IndexEntry) :
    e ∈ db.indexEntries (labels.filter (· ∉ gone)) props ↔ e ∈ db.indexEntries labels props := by
  simp only [mem_indexEntries, List.mem_filter, decide_eq_true_eq]
  constructor
  · rintro ⟨⟨hlabel, -⟩, hrest⟩
    exact ⟨hlabel, hrest⟩
  · rintro ⟨hlabel, hrest⟩
    refine ⟨⟨hlabel, fun hgone => ?_⟩, hrest⟩
    have hmem : e ∈ db.indexEntries (labels.filter (· ∈ gone)) props :=
      mem_indexEntries.mpr ⟨List.mem_filter.mpr ⟨hlabel, decide_eq_true hgone⟩, hrest⟩
    rw [h] at hmem
    exact List.not_mem_nil hmem

/-! ## The invariant -/

/-- The index has the rows it should have, and an index is registered once. -/
structure IndexKept (s : Session) : Prop where
  catalog : s.db.propIndexCatalog.Nodup
  rows : Table.Holds s.db.propValueIndex s.db.IsIndexRow

/-- The rows of a live node. -/
theorem IndexKept.row_iff {s : Session} (h : IndexKept s) {nodeId : Int64} {r : NodeEntry} (hlive : s.db.findNode nodeId = some r)
    {row : PropIndexRow} (hid : row.nodeId = nodeId) :
    row ∈ s.db.propValueIndex ↔ entry row ∈ s.db.indexEntries r.labels r.properties :=
  (h.rows.mem_iff row).trans (isIndexRow_iff (hid ▸ hlive))

/-- The parts of a session that the invariant depends on. -/
theorem IndexKept.of_same {s t : Session} (h : IndexKept s) (hnodes : t.db.nodes = s.db.nodes)
    (hcatalog : t.db.propIndexCatalog = s.db.propIndexCatalog) (hrows : t.db.propValueIndex = s.db.propValueIndex) :
    IndexKept t where
  catalog := hcatalog ▸ h.catalog
  rows := by
    rw [hrows]
    exact h.rows.congr fun row => (isIndexRow_congr hnodes hcatalog row).symm

/-- A live node gets other labels and properties, and the index keeps the rows of the other nodes and has those of the entries
for this one. -/
theorem indexKept_setNode {s t : Session} (h : IndexKept s) {nodeId : Int64} {r q : NodeEntry}
    (hlive : s.db.findNode nodeId = some r) (hnodes : t.db.nodes = (s.db.setNode nodeId q).nodes)
    (hcatalog : t.db.propIndexCatalog = s.db.propIndexCatalog) (hnodup : t.db.propValueIndex.Nodup)
    (hrows : ∀ row, row ∈ t.db.propValueIndex ↔
      if row.nodeId = nodeId then entry row ∈ s.db.indexEntries q.labels q.properties else row ∈ s.db.propValueIndex) :
    IndexKept t where
  catalog := hcatalog ▸ h.catalog
  rows := by
    refine ⟨hnodup, fun row => (hrows row).trans ?_⟩
    have hset : (s.db.setNode nodeId q).propIndexCatalog = s.db.propIndexCatalog := rfl
    rw [isIndexRow_congr hnodes (hcatalog.trans hset.symm), isIndexRow_setNode (Option.isSome_of_eq_some hlive), h.rows.mem_iff]

/-- A live node gets other labels and properties that ask for the same entries, and the index stays as it is. -/
theorem indexKept_sameEntries {s t : Session} (h : IndexKept s) {nodeId : Int64} {r q : NodeEntry}
    (hlive : s.db.findNode nodeId = some r)
    (hentries : ∀ e, e ∈ s.db.indexEntries q.labels q.properties ↔ e ∈ s.db.indexEntries r.labels r.properties)
    (hnodes : t.db.nodes = (s.db.setNode nodeId q).nodes)
    (hcatalog : t.db.propIndexCatalog = s.db.propIndexCatalog) (hrows : t.db.propValueIndex = s.db.propValueIndex) :
    IndexKept t := by
  refine indexKept_setNode h hlive hnodes hcatalog (hrows ▸ h.rows.nodup) fun row => ?_
  rw [hrows]
  split
  · rename_i hid
    rw [h.row_iff hlive hid, hentries]
  · rfl

/-! ## Each change -/

/-- A node is created, stored, and the index gets the rows of its entries. -/
theorem indexKept_insertNode {s t : Session} (h : IndexKept s) {nodeId : Int64} {labels : List String}
    {props : List (String × Json)} {rows : List PropIndexRow} (hfresh : s.db.findNode nodeId = none) (hnodup : rows.Nodup)
    (hrows : ∀ row, row ∈ rows ↔ row.nodeId = nodeId ∧ entry row ∈ s.db.indexEntries labels (storedFields props))
    (hnodes : t.db.nodes = (s.db.insertNode nodeId ⟨labels, storedFields props⟩).nodes)
    (hcatalog : t.db.propIndexCatalog = s.db.propIndexCatalog) (htable : t.db.propValueIndex = s.db.propValueIndex ++ rows) :
    IndexKept t := by
  refine ⟨hcatalog ▸ h.catalog, ?_⟩
  rw [htable]
  have hinsert : (s.db.insertNode nodeId ⟨labels, storedFields props⟩).propIndexCatalog = s.db.propIndexCatalog := rfl
  refine (h.rows.insert hnodup ?_).congr fun row => ?_
  · rintro row hrow ⟨-, r, hr, -⟩
    rw [((hrows row).mp hrow).1, hfresh] at hr
    cases hr
  · rw [isIndexRow_congr hnodes (hcatalog.trans hinsert.symm), isIndexRow_insertNode hfresh, hrows]

/-- The rows that the session writes for refreshed labels and properties. -/
theorem rows_refresh {s : Session} {labels : List String} {props : List (String × Json)} (h : s.Refreshes labels props)
    (nodeId : Int64) :
    ((s.lookedUpEntries labels props).map (IndexEntry.row nodeId)).Nodup ∧
      ∀ row, row ∈ (s.lookedUpEntries labels props).map (IndexEntry.row nodeId) ↔
        row.nodeId = nodeId ∧ entry row ∈ s.db.indexEntries labels (storedFields props) := by
  refine ⟨(h.looked.nodup_iff.mpr h.nodup).map (row_injective nodeId), fun row => ?_⟩
  rw [mem_map_row, h.looked.mem_iff, mem_indexEntries_stored h.stored]

theorem indexKept_createNode {via : CreatePath} {labels : List String} {props : List (String × Json)} {s s' : Session}
    (hP : KeepsIndex (.createNode via labels props, s)) (hnumbered : s.db.Numbered) (h : IndexKept s)
    (hrun : (Change.createNode via labels props).run s = (s', .ok ())) : IndexKept s' := by
  have htable := Change.propValueIndex_createNode hrun
  obtain ⟨seq, rows, looked, hseq, heq⟩ := Change.run_createNode hrun
  have hfresh := hnumbered.fresh hseq
  have hlast : s'.db.lastNodeId = Int64.ofNat seq := by
    rw [heq]
    cases via <;> rfl
  have hnodes : s'.db.nodes = (s.db.insertNode (Int64.ofNat seq) ⟨labels, storedFields props⟩).nodes := by
    rw [heq]
    cases via <;> rfl
  have hcatalog : s'.db.propIndexCatalog = s.db.propIndexCatalog := by
    rw [heq]
    cases via <;> rfl
  rw [hlast] at htable
  by_cases hvia : via = .destination
  · rw [if_pos hvia] at htable
    subst hvia
    refine indexKept_insertNode h hfresh List.nodup_nil (fun row => ?_) hnodes hcatalog htable
    have hnone : s.db.indexEntries labels props = [] := hP.neglects
    rw [indexEntries_stored_eq_nil hnone]
    simp
  · rw [if_neg hvia] at htable
    have hrefresh : s.Refreshes labels props := by
      refine hP.refreshes (labels, props) ?_
      cases via with
      | destination => exact absurd rfl hvia
      | api | pattern => rfl
    obtain ⟨hnodup, hmem⟩ := rows_refresh hrefresh (Int64.ofNat seq)
    exact indexKept_insertNode h hfresh hnodup hmem hnodes hcatalog htable

/-- The rows of a live node are written anew. -/
theorem indexKept_refresh {s t : Session} (h : IndexKept s) {nodeId : Int64} {r : NodeEntry} {labels : List String}
    {props : List (String × Json)} (hlive : s.db.findNode nodeId = some r) (hrefresh : s.Refreshes labels props)
    (hseq : t.db.nodeSeq = s.db.nodeSeq) (hnodes : t.db.nodes = (s.db.setNode nodeId ⟨labels, storedFields props⟩).nodes)
    (hcatalog : t.db.propIndexCatalog = s.db.propIndexCatalog) (hrows : t.db.propValueIndex = s.db.propValueIndex)
    (hlooked : t.indexedProps = s.indexedProps) : IndexKept (t.indexNodeUpdate nodeId labels props) := by
  obtain ⟨hnodup, hmem⟩ := rows_refresh hrefresh nodeId
  have htable : (t.indexNodeUpdate nodeId labels props).db.propValueIndex =
      s.db.propValueIndex.filter (·.nodeId ≠ nodeId) ++ (s.lookedUpEntries labels props).map (IndexEntry.row nodeId) := by
    unfold Session.indexNodeUpdate
    rw [Session.propValueIndex_indexNodeInsert, Session.lookedUpEntries_congr (s := s) (t := t.onDb (·.indexNodeDelete nodeId)) hlooked hcatalog,
      ← hrows]
    rfl
  obtain ⟨rows, looked, heq⟩ := Session.indexNodeUpdate_eq nodeId props labels t
  refine indexKept_setNode h hlive (q := ⟨labels, storedFields props⟩) ?_ ?_ ?_ ?_
  · rw [heq]
    exact hnodes
  · rw [heq]
    exact hcatalog
  · rw [htable]
    refine List.nodup_append.mpr ⟨h.rows.nodup.filter _, hnodup, ?_⟩
    rintro row hold _ hnew rfl
    exact of_decide_eq_true (List.mem_filter.mp hold).2 ((hmem row).mp hnew).1
  · intro row
    rw [htable, List.mem_append, List.mem_filter, decide_eq_true_iff, hmem]
    by_cases hid : row.nodeId = nodeId
    · simp [hid]
    · simp [hid]

/-- A node is deleted, and the index keeps the rows of the other nodes. -/
theorem indexKept_removeNode {s t : Session} (h : IndexKept s) {n : Int64}
    (hnodes : t.db.nodes = (s.db.removeNode n).nodes) (hcatalog : t.db.propIndexCatalog = s.db.propIndexCatalog)
    (hnodup : t.db.propValueIndex.Nodup)
    (hrows : ∀ row, row ∈ t.db.propValueIndex ↔ row ∈ s.db.propValueIndex ∧ row.nodeId ≠ n) : IndexKept t := by
  refine ⟨hcatalog ▸ h.catalog, hnodup, fun row => ?_⟩
  have hremove : (s.db.removeNode n).propIndexCatalog = s.db.propIndexCatalog := rfl
  rw [hrows, isIndexRow_congr hnodes (hcatalog.trans hremove.symm), isIndexRow_removeNode, h.rows.mem_iff]

/-- A node that no index asks for has no rows. -/
theorem IndexKept.no_rows {s : Session} (h : IndexKept s) {nodeId : Int64}
    (hnone : (s.db.findNode nodeId).elim [] (fun r => s.db.indexEntries r.labels r.properties) = []) {row : PropIndexRow}
    (hrow : row ∈ s.db.propValueIndex) : row.nodeId ≠ nodeId := by
  rintro rfl
  obtain ⟨-, r, hr, -⟩ := (h.rows.mem_iff row).mp hrow
  rw [h.row_iff hr rfl] at hrow
  rw [hr] at hnone
  change s.db.indexEntries r.labels r.properties = [] at hnone
  rw [hnone] at hrow
  exact List.not_mem_nil hrow

theorem indexKept_deleteNode {via : DeletePath} {nodeId : Int64} {s : Session} (hP : KeepsIndex (.deleteNode via nodeId, s))
    (h : IndexKept s) : IndexKept (Change.deleteNodeRun via nodeId s) := by
  cases via with
  | api | apiDetach =>
    unfold Change.deleteNodeRun
    refine Change.onNode_cases (P := IndexKept) h fun r hr => ?_
    refine indexKept_removeNode h (n := nodeId) rfl rfl (h.rows.nodup.filter _) fun row => ?_
    exact List.mem_filter.trans (and_congr_right fun _ => decide_eq_true_iff)
  | node | detach | path =>
    refine indexKept_removeNode h (n := nodeId) rfl rfl h.rows.nodup fun row => ?_
    exact ⟨fun hrow => ⟨hrow, h.no_rows hP.neglects hrow⟩, fun hrow => hrow.1⟩

/-- The row of a node for one index. -/
theorem indexRow?_eq_some {label key : String} {nodeId : Int64} {props : List (String × Json)} {row : PropIndexRow} :
    Db.indexRow? label key nodeId props = some row ↔
      row.label = label ∧ row.key = key ∧ row.nodeId = nodeId ∧ props.lookup key = some row.value ∧ row.value ≠ .null := by
  rw [indexRow?_eq, Option.map_eq_some_iff]
  constructor
  · rintro ⟨e, he, rfl⟩
    obtain ⟨hlabel, hkey, hlookup, hne⟩ := indexEntryOf_eq_some.mp he
    exact ⟨hlabel, hkey, rfl, hlookup, hne⟩
  · rintro ⟨hlabel, hkey, rfl, hlookup, hne⟩
    exact ⟨entry row, indexEntryOf_eq_some.mpr ⟨hlabel, hkey, hlookup, hne⟩, rfl⟩

/-- The nodes that `label_index` has for a label are the live nodes with it. -/
theorem mem_labelled {db : Db} {label : String} (h : db.LabelIndexed label) {nodeId : Int64} :
    nodeId ∈ db.labelled label ↔ ∃ r, db.findNode nodeId = some r ∧ label ∈ r.labels := by
  obtain ⟨-, hsound, hcomplete⟩ := h
  constructor
  · intro hmem
    obtain ⟨r, hr, hlabel⟩ := (Option.any_eq_true _ _).mp (hsound nodeId hmem)
    exact ⟨r, hr, of_decide_eq_true hlabel⟩
  · rintro ⟨r, hr, hlabel⟩
    exact hcomplete nodeId (Db.mem_nodes_of_findNode hr) ((Option.any_eq_true _ _).mpr ⟨r, hr, decide_eq_true hlabel⟩)

/-- The rows an index is filled with. -/
def filled (db : Db) (label key : String) : List PropIndexRow :=
  (db.labelled label).filterMap fun nodeId => (db.findNode nodeId).bind fun r => Db.indexRow? label key nodeId r.properties

theorem mem_filled {db : Db} {label key : String} (h : db.LabelIndexed label) {row : PropIndexRow} :
    row ∈ filled db label key ↔ row.label = label ∧ row.key = key ∧ ∃ r, db.findNode row.nodeId = some r ∧ row.label ∈ r.labels ∧
      r.properties.lookup row.key = some row.value ∧ row.value ≠ .null := by
  unfold filled
  simp only [List.mem_filterMap, Option.bind_eq_some_iff, indexRow?_eq_some, mem_labelled h]
  constructor
  · rintro ⟨_, ⟨r, hr, hlabel⟩, r', hr', rfl, rfl, rfl, hlookup, hne⟩
    exact ⟨rfl, rfl, r', hr', by rwa [Option.some.inj (hr'.symm.trans hr)], hlookup, hne⟩
  · rintro ⟨rfl, rfl, r, hr, hlabel, hlookup, hne⟩
    exact ⟨row.nodeId, ⟨r, hr, hlabel⟩, r, hr, rfl, rfl, rfl, hlookup, hne⟩

theorem nodup_filled {db : Db} {label key : String} (h : db.LabelIndexed label) : (filled db label key).Nodup := by
  refine List.Nodup.filterMap ?_ h.1
  rintro m m' row hrow hrow'
  obtain ⟨r, -, hr⟩ := Option.bind_eq_some_iff.mp hrow
  obtain ⟨r', -, hr'⟩ := Option.bind_eq_some_iff.mp hrow'
  exact (indexRow?_eq_some.mp hr).2.2.1.symm.trans (indexRow?_eq_some.mp hr').2.2.1

theorem indexKept_createIndex {label key : String} {s : Session} (hlabel : s.db.LabelIndexed label) (h : IndexKept s) :
    IndexKept (s.onDb (·.createPropertyIndex label key)) := by
  refine ⟨?_, ?_, fun row => ?_⟩
  · change (if (label, key) ∈ s.db.propIndexCatalog then s.db.propIndexCatalog else s.db.propIndexCatalog ++ [(label, key)]).Nodup
    split
    · exact h.catalog
    · rename_i hnew
      exact List.Nodup.append h.catalog (List.nodup_singleton _) (by simpa using hnew)
  · change ((s.db.propValueIndex.filter fun row => ¬(row.label = label ∧ row.key = key)) ++ filled s.db label key).Nodup
    refine List.nodup_append.mpr ⟨h.rows.nodup.filter _, nodup_filled hlabel, ?_⟩
    rintro row hold _ hnew rfl
    obtain ⟨hl, hk, -⟩ := (mem_filled hlabel).mp hnew
    exact of_decide_eq_true (List.mem_filter.mp hold).2 ⟨hl, hk⟩
  · change row ∈ (s.db.propValueIndex.filter fun row => ¬(row.label = label ∧ row.key = key)) ++ filled s.db label key ↔
      (row.label, row.key) ∈ (if (label, key) ∈ s.db.propIndexCatalog then s.db.propIndexCatalog
        else s.db.propIndexCatalog ++ [(label, key)]) ∧ ∃ r, s.db.findNode row.nodeId = some r ∧ row.label ∈ r.labels ∧
          r.properties.lookup row.key = some row.value ∧ row.value ≠ .null
    have hcatalog : (row.label, row.key) ∈ (if (label, key) ∈ s.db.propIndexCatalog then s.db.propIndexCatalog
        else s.db.propIndexCatalog ++ [(label, key)]) ↔
        (row.label, row.key) ∈ s.db.propIndexCatalog ∨ (row.label = label ∧ row.key = key) := by
      split
      · rename_i hold
        refine ⟨.inl, fun h => h.elim id ?_⟩
        rintro ⟨rfl, rfl⟩
        exact hold
      · simp
    rw [List.mem_append, List.mem_filter, h.rows.mem_iff, mem_filled hlabel, hcatalog, decide_eq_true_iff]
    unfold Db.IsIndexRow
    by_cases hrow : row.label = label ∧ row.key = key
    · simp [hrow]
    · simp only [hrow, not_false_eq_true, and_true, or_false]
      constructor
      · rintro (⟨hindex, hrest⟩ | ⟨hl, hk, -⟩)
        · exact ⟨hindex, hrest⟩
        · exact absurd ⟨hl, hk⟩ hrow
      · exact .inl

theorem indexKept_dropIndex {label key : String} {s : Session} (h : IndexKept s) :
    IndexKept (s.onDb (·.dropPropertyIndex label key)) := by
  by_cases hindex : (label, key) ∈ s.db.propIndexCatalog
  · have hdrop : s.db.dropPropertyIndex label key = { s.db with
        propIndexCatalog := s.db.propIndexCatalog.filter (· ≠ (label, key))
        propValueIndex := s.db.propValueIndex.filter fun row => ¬(row.label = label ∧ row.key = key) } := if_pos hindex
    change IndexKept { s with db := s.db.dropPropertyIndex label key }
    rw [hdrop]
    refine ⟨h.catalog.filter _, (h.rows.delete _).congr fun row => ?_⟩
    unfold Db.IsIndexRow
    simp only [List.mem_filter, decide_eq_true_eq, ne_eq, Prod.mk.injEq]
    exact ⟨fun ⟨⟨hrow, hlive⟩, hne⟩ => ⟨⟨hrow, hne⟩, hlive⟩, fun ⟨⟨hrow, hne⟩, hlive⟩ => ⟨⟨hrow, hlive⟩, hne⟩⟩
  · have hdrop : s.db.dropPropertyIndex label key = s.db := if_neg hindex
    change IndexKept { s with db := s.db.dropPropertyIndex label key }
    rw [hdrop]
    exact h

/-- The index is kept by every change that keeps it. -/
theorem indexKept_run {c : Change} {s s' : Session} (hP : KeepsIndex (c, s)) (hnumbered : s.db.Numbered)
    (hstored : s.db.Stored) (h : IndexKept s) (hrun : c.run s = (s', .ok ())) : IndexKept s' := by
  cases c with
  | createNode via labels props => exact indexKept_createNode hP hnumbered h hrun
  | createEdge api relType source target props =>
    obtain ⟨seq, -, -, -, rfl⟩ := Change.run_createEdge hrun
    cases api <;> exact h.of_same rfl rfl rfl
  | updateNode nodeId labels props =>
    cases hrun
    refine Change.onNode_cases (P := IndexKept) h fun r hr => ?_
    have hrefresh : s.Refreshes labels props := hP.refreshes (labels, props) (by simp [Change.refreshes, hr])
    apply indexKept_refresh h hr hrefresh <;> rfl
  | setProps nodeId props =>
    cases hrun
    refine Change.onNode_cases (P := IndexKept) h fun r hr => ?_
    have hrefresh : s.Refreshes r.labels props := hP.refreshes (r.labels, props) (by simp [Change.refreshes, hr])
    apply indexKept_refresh h hr hrefresh <;> rfl
  | removeProp nodeId key =>
    cases hrun
    refine Change.onNode_cases (P := IndexKept) h fun r hr => ?_
    have hnone : s.db.indexEntries r.labels (r.properties.filter (·.1 = key)) = [] := by
      simpa [Change.neglects, hr] using hP.neglects
    refine indexKept_sameEntries h hr (q := ⟨r.labels, storedFields (removeKey r.properties key)⟩)
      (fun e => ?_) rfl rfl rfl
    rw [storedFields_removeKey (hstored nodeId r hr) key]
    exact mem_indexEntries_removeKey hnone e
  | addLabels nodeId labels =>
    cases hrun
    refine Change.onNode_cases (P := IndexKept) h fun r hr => ?_
    have hnone : s.db.indexEntries (Change.newLabels labels r) r.properties = [] := by
      simpa [Change.neglects, hr] using hP.neglects
    exact indexKept_sameEntries h hr (q := ⟨r.labels ++ Change.newLabels labels r, r.properties⟩)
      (mem_indexEntries_append hnone) rfl rfl rfl
  | removeLabels nodeId labels =>
    cases hrun
    refine Change.onNode_cases (P := IndexKept) h fun r hr => ?_
    have hnone : s.db.indexEntries (r.labels.filter (· ∈ labels)) r.properties = [] := by
      simpa [Change.neglects, hr] using hP.neglects
    exact indexKept_sameEntries h hr (q := ⟨r.labels.filter (· ∉ labels), r.properties⟩)
      (mem_indexEntries_filter hnone) rfl rfl rfl
  | deleteNode via nodeId =>
    cases hrun
    exact indexKept_deleteNode hP h
  | createIndex label key =>
    cases hrun
    exact indexKept_createIndex (hP.fills label rfl) h
  | dropIndex label key =>
    cases hrun
    exact indexKept_dropIndex h
  | createConstraint label key kind =>
    cases hrun
    obtain ⟨catalog, heq⟩ := s.db.createConstraint_eq label key kind
    change IndexKept { s with db := s.db.createConstraint label key kind }
    rw [heq]
    exact h.of_same rfl rfl rfl
  | clear =>
    cases hrun
    refine ⟨h.catalog, ?_⟩
    change Table.Holds s.db.propValueIndex (Change.clearRun s.db).IsIndexRow
    rw [hP.clears rfl]
    refine Table.holds_nil ?_
    rintro row ⟨-, r, hr, -⟩
    cases hr
  | setEdgeProps | deleteEdge | flush | abandon | dropConstraint | beginQuery =>
    cases hrun
    exact h.of_same rfl rfl rfl

end IndexAux

open IndexAux

open Sample

end PgEddy
