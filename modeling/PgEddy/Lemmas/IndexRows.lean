import PgEddy.Lemmas.Changes
import PgEddy.Lib.Table

/-!
# The rows of the property index

The rows that the registered indexes ask for, those that the upkeep of the index inserts, and the values of properties that
storing leaves as they are.
-/

namespace PgEddy

/-! ## Stored values -/

namespace StoredAux

theorem asI64_ofI64 (i : Int64) : (JsonNumber.ofI64 i).asI64 = some i := by
  unfold JsonNumber.ofI64
  split
  · rfl
  · rename_i h
    change (if i.toUInt64.toNat < 2 ^ 63 then some i.toUInt64.toInt64 else none) = some i
    rw [if_pos (JsonNumber.toNat_toUInt64 h), Int64.toInt64_toUInt64]

theorem stored_ofI64 (i : Int64) : (JsonNumber.ofI64 i).stored = .ofI64 i := by
  unfold JsonNumber.stored
  rw [asI64_ofI64]

theorem number_stored_stored (n : JsonNumber) : n.stored.stored = n.stored := by
  cases hint : n.asI64 with
  | some i =>
    have h : n.stored = .ofI64 i := by
      unfold JsonNumber.stored
      rw [hint]
    rw [h, stored_ofI64]
  | none =>
    have h : n.stored = (n.asF64.bind JsonNumber.ofF64?).getD (.ofI64 0) := by
      unfold JsonNumber.stored
      rw [hint]
    rw [h]
    cases hfloat : n.asF64.bind JsonNumber.ofF64? with
    | none => exact stored_ofI64 0
    | some m =>
      obtain ⟨f, -, hf⟩ := Option.bind_eq_some_iff.mp hfloat
      unfold JsonNumber.ofF64? at hf
      split at hf
      · rename_i hfinite
        cases hf
        change ((JsonNumber.ofF64? f).getD (.ofI64 0)) = _
        rw [JsonNumber.ofF64?, dif_pos hfinite]
      · cases hf

theorem storedItems_eq (items : List Json) : storedItems items = items.map Json.stored := by
  induction items with
  | nil => rfl
  | cons v items ih => rw [storedItems, ih, List.map_cons]

theorem storedFields_eq (fields : List (String × Json)) : storedFields fields = fields.map fun f => (f.1, f.2.stored) := by
  induction fields with
  | nil => rfl
  | cons f fields ih => rw [storedFields, ih, List.map_cons]

theorem stored_stored (v : Json) : v.stored.stored = v.stored := by
  induction v using Json.tree_induction with
  | null | bool | string => rfl
  | number n => exact congrArg Json.number (number_stored_stored n)
  | array items ih =>
    change Json.array (storedItems (storedItems items)) = Json.array (storedItems items)
    rw [storedItems_eq, storedItems_eq, List.map_map]
    exact congrArg Json.array (List.map_congr_left ih)
  | object fields ih =>
    change Json.object (storedFields (storedFields fields)) = Json.object (storedFields fields)
    rw [storedFields_eq, storedFields_eq, List.map_map]
    exact congrArg Json.object (List.map_congr_left fun f hf => congrArg (f.1, ·) (ih f hf))

theorem storedFields_storedFields (props : List (String × Json)) : storedFields (storedFields props) = storedFields props := by
  rw [storedFields_eq, storedFields_eq, List.map_map]
  exact List.map_congr_left fun f _ => congrArg (f.1, ·) (stored_stored f.2)

theorem lookup_storedFields (props : List (String × Json)) (key : String) :
    (storedFields props).lookup key = (props.lookup key).map Json.stored := by
  rw [storedFields_eq]
  induction props with
  | nil => rfl
  | cons f props ih =>
    rw [List.map_cons, List.lookup_cons, List.lookup_cons, ih]
    split <;> rfl

/-- A stored value is null when the value is. -/
theorem stored_eq_null {v : Json} : v.stored = .null ↔ v = .null := by
  cases v <;> simp [Json.stored]

/-- Storing leaves the properties as they are. -/
theorem storedFields_eq_self {props : List (String × Json)} : storedFields props = props ↔ ∀ f ∈ props, f.2.stored = f.2 := by
  rw [storedFields_eq]
  constructor
  · intro h f hf
    have hmap : props.map (fun f => (f.1, f.2.stored)) = props.map id := h.trans (List.map_id props).symm
    exact congrArg Prod.snd (List.map_inj_left.mp hmap f hf)
  · intro h
    exact (List.map_congr_left fun f hf => congrArg (f.1, ·) (h f hf)).trans (List.map_id props)

/-- Properties that storing leaves as they are stay so when one of them is removed. -/
theorem storedFields_removeKey {props : List (String × Json)} (h : storedFields props = props) (key : String) :
    storedFields (removeKey props key) = removeKey props key := by
  rw [storedFields_eq_self] at h ⊢
  intro f hf
  exact h f (List.mem_filter.mp hf).1

end StoredAux

/-- The properties of the live nodes are stored ones. -/
def Db.Stored (db : Db) : Prop := ∀ nodeId r, db.findNode nodeId = some r → storedFields r.properties = r.properties

open StoredAux in
theorem stored_run {c : Change} {s s' : Session} (h : s.db.Stored) (hrun : c.run s = (s', .ok ())) : s'.db.Stored := by
  intro m r hr
  rcases Change.findNode_run hrun hr with hold | hentry
  · exact h m r hold
  · cases c with
    | createNode =>
      cases hentry
      exact storedFields_storedFields _
    | updateNode | setProps | removeProp =>
      obtain ⟨q, hq, heq⟩ := Option.map_eq_some_iff.mp hentry
      cases heq
      exact storedFields_storedFields _
    | addLabels | removeLabels =>
      obtain ⟨q, hq, heq⟩ := Option.map_eq_some_iff.mp hentry
      cases heq
      exact h m q hq
    | _ => cases hentry

theorem stored_empty : (({} : Session).db).Stored := by
  intro m r hr
  cases hr

/-! ## The entries that indexes ask for -/

/-- A label, a property of it and a value. -/
abbrev IndexEntry := String × String × Json

/-- The entry of a property, if there is the property and it is not null. -/
def indexEntryOf (props : List (String × Json)) (label key : String) : Option IndexEntry :=
  match props.lookup key with
  | none => none
  | some .null => none
  | some v => some (label, key, v)

/-- The entries that the registered indexes ask for of a node with these labels and properties. -/
def Db.indexEntries (db : Db) (labels : List String) (props : List (String × Json)) : List IndexEntry :=
  labels.flatMap fun label => (db.indexedPropsOf label).filterMap (indexEntryOf props label)

/-- The entries for the indexes that the session knows of. -/
def Session.lookedUpEntries (s : Session) (labels : List String) (props : List (String × Json)) : List IndexEntry :=
  labels.flatMap fun label => (s.lookUpIndexed label).1.filterMap (indexEntryOf props label)

def IndexEntry.row (nodeId : Int64) (e : IndexEntry) : PropIndexRow := ⟨e.1, e.2.1, e.2.2, nodeId⟩

theorem indexEntryOf_eq_some {props : List (String × Json)} {label key : String} {e : IndexEntry} :
    indexEntryOf props label key = some e ↔ e.1 = label ∧ e.2.1 = key ∧ props.lookup key = some e.2.2 ∧ e.2.2 ≠ .null := by
  obtain ⟨l, k, v⟩ := e
  unfold indexEntryOf
  split
  · rename_i hnone
    simp [hnone]
  · rename_i hnull
    simp only [hnull, reduceCtorEq, Option.some.injEq, false_iff]
    rintro ⟨-, -, rfl, hne⟩
    exact hne rfl
  · rename_i w hne hsome
    simp only [hsome, Option.some.injEq, Prod.mk.injEq]
    constructor
    · rintro ⟨rfl, rfl, rfl⟩
      exact ⟨rfl, rfl, rfl, hne⟩
    · rintro ⟨rfl, rfl, rfl, -⟩
      exact ⟨rfl, rfl, rfl⟩

theorem indexRow?_eq (label key : String) (nodeId : Int64) (props : List (String × Json)) :
    Db.indexRow? label key nodeId props = (indexEntryOf props label key).map (IndexEntry.row nodeId) := by
  unfold Db.indexRow? indexEntryOf
  cases props.lookup key with
  | none => rfl
  | some v => cases v <;> rfl

theorem mem_indexedPropsOf {db : Db} {label key : String} :
    key ∈ db.indexedPropsOf label ↔ (label, key) ∈ db.propIndexCatalog := by
  unfold Db.indexedPropsOf
  simp [List.mem_filter]

theorem mem_indexEntries {db : Db} {labels : List String} {props : List (String × Json)} {e : IndexEntry} :
    e ∈ db.indexEntries labels props ↔
      e.1 ∈ labels ∧ (e.1, e.2.1) ∈ db.propIndexCatalog ∧ props.lookup e.2.1 = some e.2.2 ∧ e.2.2 ≠ .null := by
  unfold Db.indexEntries
  simp only [List.mem_flatMap, List.mem_filterMap, mem_indexedPropsOf, indexEntryOf_eq_some]
  constructor
  · rintro ⟨label, hlabel, key, hkey, rfl, rfl, hlookup, hne⟩
    exact ⟨hlabel, hkey, hlookup, hne⟩
  · rintro ⟨hlabel, hkey, hlookup, hne⟩
    exact ⟨e.1, hlabel, e.2.1, hkey, rfl, rfl, hlookup, hne⟩

theorem row_injective (nodeId : Int64) : Function.Injective (IndexEntry.row nodeId) := by
  rintro ⟨l, k, v⟩ ⟨l', k', v'⟩ h
  simp only [IndexEntry.row, PropIndexRow.mk.injEq] at h
  obtain ⟨rfl, rfl, rfl, -⟩ := h
  rfl

/-! ## The upkeep of the index -/

namespace Session

theorem lookUpIndexed_fst (s : Session) (label : String) :
    (s.lookUpIndexed label).1 = s.indexedProps[label]?.getD (s.db.indexedPropsOf label) := by
  unfold lookUpIndexed
  split
  · rename_i h
    rw [h]
    rfl
  · rename_i h
    rw [h]
    rfl

theorem lookedUpEntries_congr {s t : Session} (hlooked : t.indexedProps = s.indexedProps)
    (hcatalog : t.db.propIndexCatalog = s.db.propIndexCatalog) (labels : List String) (props : List (String × Json)) :
    t.lookedUpEntries labels props = s.lookedUpEntries labels props := by
  unfold lookedUpEntries
  refine List.flatMap_congr fun label _ => ?_
  rw [lookUpIndexed_fst, lookUpIndexed_fst, hlooked, Db.indexedPropsOf, hcatalog]
  rfl

/-- Looking a label up does not change what another lookup gives. -/
theorem lookUpIndexed_after (s : Session) (label label' : String) {f : Db → Db}
    (hf : ∀ db, (f db).propIndexCatalog = db.propIndexCatalog) :
    (((s.lookUpIndexed label).2.onDb f).lookUpIndexed label').1 = (s.lookUpIndexed label').1 := by
  have hcatalog : ∀ db l, (f db).indexedPropsOf l = db.indexedPropsOf l := by
    intro db l
    unfold Db.indexedPropsOf
    rw [hf]
  rw [lookUpIndexed_fst, lookUpIndexed_fst]
  change (s.lookUpIndexed label).2.indexedProps[label']?.getD ((f (s.lookUpIndexed label).2.db).indexedPropsOf label') = _
  rw [hcatalog]
  unfold lookUpIndexed
  split
  · rfl
  · rename_i hnone
    change (s.indexedProps.insert label (s.db.indexedPropsOf label))[label']?.getD (s.db.indexedPropsOf label') = _
    rw [Std.ExtTreeMap.getElem?_insert]
    split
    · rename_i heq
      have heq := Std.LawfulEqCmp.eq_of_compare heq
      subst heq
      rw [hnone]
      rfl
    · rfl

theorem lookedUpEntries_after (s : Session) (label : String) (labels : List String) (props : List (String × Json)) {f : Db → Db}
    (hf : ∀ db, (f db).propIndexCatalog = db.propIndexCatalog) :
    ((s.lookUpIndexed label).2.onDb f).lookedUpEntries labels props = s.lookedUpEntries labels props := by
  unfold lookedUpEntries
  exact List.flatMap_congr fun label' _ => by rw [lookUpIndexed_after s label label' hf]

/-- The session after the rows of one label. -/
def indexedLabel (nodeId : Int64) (props : List (String × Json)) (label : String) (s : Session) : Session :=
  (s.lookUpIndexed label).2.onDb fun db =>
    { db with propValueIndex := db.propValueIndex ++ (s.lookUpIndexed label).1.filterMap fun key => Db.indexRow? label key nodeId props }

theorem indexNodeInsert_cons (nodeId : Int64) (props : List (String × Json)) (label : String) (labels : List String) (s : Session) :
    indexNodeInsert nodeId props (label :: labels) s = indexNodeInsert nodeId props labels (s.indexedLabel nodeId props label) := rfl

theorem propValueIndex_indexedLabel (nodeId : Int64) (props : List (String × Json)) (label : String) (s : Session) :
    (s.indexedLabel nodeId props label).db.propValueIndex =
      s.db.propValueIndex ++ ((s.lookUpIndexed label).1.filterMap (indexEntryOf props label)).map (IndexEntry.row nodeId) := by
  obtain ⟨looked, hlooked⟩ := lookUpIndexed_eq s label
  rw [indexedLabel, List.map_filterMap, List.filterMap_congr fun key _ => (indexRow?_eq label key nodeId props).symm, hlooked]
  rfl

theorem lookedUpEntries_indexedLabel (nodeId : Int64) (props : List (String × Json)) (label : String) (labels : List String)
    (s : Session) : (s.indexedLabel nodeId props label).lookedUpEntries labels props = s.lookedUpEntries labels props := by
  unfold indexedLabel
  apply lookedUpEntries_after
  intro db
  rfl

/-- The upkeep inserts the rows of the entries for the indexes the session knows of. -/
theorem propValueIndex_indexNodeInsert (nodeId : Int64) (props : List (String × Json)) (labels : List String) (s : Session) :
    (indexNodeInsert nodeId props labels s).db.propValueIndex =
      s.db.propValueIndex ++ (s.lookedUpEntries labels props).map (IndexEntry.row nodeId) := by
  induction labels generalizing s with
  | nil => exact (List.append_nil _).symm
  | cons label labels ih =>
    rw [indexNodeInsert_cons, ih, propValueIndex_indexedLabel, lookedUpEntries_indexedLabel, List.append_assoc, ← List.map_append]
    rfl

end Session

/-- The index after the upkeep for a new node. -/
theorem Session.propValueIndex_new (nodeId : Int64) (labels : List String) (props : List (String × Json)) {s t : Session}
    (hid : t.db.lastNodeId = nodeId) (hrows : t.db.propValueIndex = s.db.propValueIndex)
    (hlooked : t.indexedProps = s.indexedProps) (hcatalog : t.db.propIndexCatalog = s.db.propIndexCatalog) :
    (indexNodeInsert nodeId props labels t).db.propValueIndex = s.db.propValueIndex ++
      (s.lookedUpEntries labels props).map (IndexEntry.row (indexNodeInsert nodeId props labels t).db.lastNodeId) := by
  rw [lastNodeId_indexNodeInsert, hid, propValueIndex_indexNodeInsert, lookedUpEntries_congr hlooked hcatalog, hrows]

/-- The index after a new node: the rows of its entries, unless a relationship of a pattern leads to it. -/
theorem Change.propValueIndex_createNode {via : CreatePath} {labels : List String} {props : List (String × Json)}
    {s s' : Session} (h : (createNode via labels props).run s = (s', .ok ())) :
    s'.db.propValueIndex = s.db.propValueIndex ++
      if via = .destination then [] else (s.lookedUpEntries labels props).map (IndexEntry.row s'.db.lastNodeId) := by
  simp only [run] at h
  split at h
  · cases h
  · cases via with
    | destination =>
      cases h
      exact (List.append_nil _).symm
    | api =>
      cases h
      exact Session.propValueIndex_new _ labels props rfl rfl rfl rfl
    | pattern =>
      simp only [createNodeRun] at h
      split at h
      · cases h
      · cases h
        exact Session.propValueIndex_new _ labels props rfl rfl rfl rfl

end PgEddy
