import PgEddy.Lib.Multigraph
import PgEddy.Lemmas.Linked

/-!
# The undeleted edges

The records of the undeleted edges, newest first, are what every walk and every scan picks from: a walk takes those that hang in
one chain of the node, a scan those whose inserter the reader sees.
-/

namespace PgEddy

/-- What a reader takes from an edge when only the deleter counts. -/
def EdgeItem.live (e : EdgeItem) : Option EdgeRecord := if e.undeleted then e.record else none

/-- The records of the undeleted edges, newest first. -/
def liveRecords (edges : Relation) : List EdgeRecord := (edgeItems edges).reverse.filterMap EdgeItem.live

/-- No two edges have the same id. -/
def DistinctEdgeIds (edges : Relation) : Prop := ((edgeItems edges).map EdgeItem.edgeId).Nodup

instance (edges : Relation) : Decidable (DistinctEdgeIds edges) := inferInstanceAs (Decidable (List.Nodup _))

/-- The end of a record by which it hangs in an out-chain or in an in-chain. -/
def EdgeRecord.endpoint (r : EdgeRecord) (isOutChain : Bool) : Int64 := if isOutChain then r.sourceNodeId else r.targetNodeId

/-- A record decoded from an item has the item's id and ends, and its location. -/
theorem EdgeItem.record_fields {e : EdgeItem} {r : EdgeRecord} (h : e.record = some r) :
    r.edgeId = e.edgeId ∧ (∀ isOutChain, r.endpoint isOutChain = e.endpoint isOutChain) ∧ (r.blockNum, r.offsetNum) = e.loc := by
  simp only [EdgeItem.record, decodeEdgeRecord] at h
  split at h
  · cases h
  · split at h
    · cases h
    · cases h
      exact ⟨rfl, fun isOutChain => by cases isOutChain <;> rfl, rfl⟩

theorem EdgeItem.live_eq_some {e : EdgeItem} {r : EdgeRecord} :
    e.live = some r ↔ e.undeleted = true ∧ e.record = some r := by
  simp only [EdgeItem.live]
  split <;> simp [*]

theorem mem_liveRecords {edges : Relation} {r : EdgeRecord} :
    r ∈ liveRecords edges ↔ ∃ e ∈ edgeItems edges, e.undeleted = true ∧ e.record = some r := by
  simp only [liveRecords, List.mem_filterMap, List.mem_reverse, EdgeItem.live_eq_some]

/-- A walk takes from the undeleted edges those of the chain that pass the filter. -/
theorem walk_eq (edges : Relation) (isOutChain : Bool) (n : Int64) (relTypeFilter : Option Int32) :
    walk edges isOutChain n relTypeFilter =
      (liveRecords edges).filter (fun r => r.endpoint isOutChain = n && passesFilter relTypeFilter r) := by
  rw [walk, thread, liveRecords, ← List.filter_reverse, List.filterMap_filter, List.filter_filterMap]
  refine List.filterMap_congr fun e _ => ?_
  simp only [EdgeItem.walked, EdgeItem.live]
  cases hu : e.undeleted with
  | false => simp
  | true =>
    cases hr : e.record with
    | none => simp
    | some r =>
      by_cases hn : e.endpoint isOutChain = n <;>
        simp [hn, (EdgeItem.record_fields hr).2.1, Option.filter_some]

/-- A reader who sees the inserter of every edge scans the undeleted edges. -/
theorem scanAllEdges_eq_liveRecords {be : Backend} {edges : Relation}
    (h : ∀ e ∈ edgeItems edges, edgeVisible be e.hdr = e.undeleted) : scanAllEdges be edges = (liveRecords edges).reverse := by
  rw [scanAllEdges_eq, liveRecords, ← List.filterMap_reverse, List.reverse_reverse]
  refine List.filterMap_congr fun e he => ?_
  rw [EdgeItem.read, h e he]
  rfl

theorem DistinctEdgeIds.inj {edges : Relation} (h : DistinctEdgeIds edges) {e d : EdgeItem} (he : e ∈ edgeItems edges)
    (hd : d ∈ edgeItems edges) (hid : e.edgeId = d.edgeId) : e = d := List.inj_on_of_nodup_map h he hd hid

theorem filterMap_ids {α κ : Type} (key : α → κ) (id : EdgeRecord → κ) (f : α → Option EdgeRecord)
    (h : ∀ a r, f a = some r → id r = key a) (l : List α) : ((l.filterMap f).map id).Sublist (l.map key) := by
  induction l with
  | nil => exact .slnil
  | cons a l ih =>
    rw [List.filterMap_cons]
    cases hf : f a with
    | none => exact ih.cons _
    | some r => simpa only [List.map_cons, h a r hf] using ih.cons_cons _

theorem EdgeItem.read_eq_some {be : Backend} {e : EdgeItem} {r : EdgeRecord} :
    e.read be = some r ↔ edgeVisible be e.hdr = true ∧ e.record = some r := by
  simp only [EdgeItem.read]
  split <;> simp [*]

theorem findEdgeById_eq_none {be : Backend} {edges : Relation} {edgeId : Int64}
    (h : ∀ e ∈ edgeItems edges, e.edgeId ≠ edgeId) : findEdgeById be edges edgeId = none := by
  rw [findEdgeById_eq, List.head?_eq_none_iff, List.filterMap_eq_nil_iff]
  intro e he
  cases hr : e.read be with
  | none => rfl
  | some r => simp [Option.filter_some, (EdgeItem.record_fields (EdgeItem.read_eq_some.mp hr).2).1, h e he]

/-- The search by id reads the one edge with the id. -/
theorem DistinctEdgeIds.findEdgeById {edges : Relation} (h : DistinctEdgeIds edges) {e : EdgeItem} (he : e ∈ edgeItems edges)
    (be : Backend) : findEdgeById be edges e.edgeId = e.read be := by
  have hread : ∀ d ∈ edgeItems edges, ∀ r, (d.read be).filter (fun rec => rec.edgeId == e.edgeId) = some r →
      e.read be = some r := by
    intro d hd r hr
    obtain ⟨hr, hid⟩ := Option.filter_eq_some_iff.mp hr
    have hid : d.edgeId = e.edgeId := by
      rw [← (EdgeItem.record_fields (EdgeItem.read_eq_some.mp hr).2).1]
      simpa using hid
    exact h.inj hd he hid ▸ hr
  rw [findEdgeById_eq]
  cases hf : ((edgeItems edges).filterMap (fun d => (d.read be).filter (fun rec => rec.edgeId == e.edgeId))).head? with
  | some r =>
    obtain ⟨d, hd, hr⟩ := List.mem_filterMap.mp (List.mem_of_head? hf)
    exact (hread d hd r hr).symm
  | none =>
    cases hr : e.read be with
    | none => rfl
    | some r =>
      rw [List.head?_eq_none_iff, List.filterMap_eq_nil_iff] at hf
      have := hf e he
      simp [hr, Option.filter_some, (EdgeItem.record_fields (EdgeItem.read_eq_some.mp hr).2).1] at this

/-- The undeleted edges have distinct ids. -/
theorem DistinctEdgeIds.nodup_live {edges : Relation} (h : DistinctEdgeIds edges) :
    ((liveRecords edges).map EdgeRecord.edgeId).Nodup := by
  have hrev : ((edgeItems edges).reverse.map EdgeItem.edgeId).Nodup := by
    rw [List.map_reverse]
    exact List.nodup_reverse.mpr h
  exact hrev.sublist (filterMap_ids EdgeItem.edgeId EdgeRecord.edgeId EdgeItem.live
    (fun _ _ hr => (EdgeItem.record_fields (EdgeItem.live_eq_some.mp hr).2).1) _)

/-! ## The first record of each id -/

theorem mem_of_mem_retainFirst {r : EdgeRecord} :
    ∀ {l : List EdgeRecord} {seen : List Int64}, r ∈ retainFirst l seen → r ∈ l ∧ r.edgeId ∉ seen
  | [], _, h => by simp [retainFirst] at h
  | e :: es, seen, h => by
    simp only [retainFirst, List.contains_eq_mem, decide_eq_true_eq] at h
    split at h
    · obtain ⟨h1, h2⟩ := mem_of_mem_retainFirst h
      exact ⟨List.mem_cons_of_mem _ h1, h2⟩
    · next hn =>
      rcases List.mem_cons.mp h with rfl | h
      · exact ⟨List.mem_cons_self, hn⟩
      · obtain ⟨h1, h2⟩ := mem_of_mem_retainFirst h
        exact ⟨List.mem_cons_of_mem _ h1, fun hm => h2 (List.mem_cons_of_mem _ hm)⟩

theorem nodup_retainFirst : ∀ (l : List EdgeRecord) (seen : List Int64), ((retainFirst l seen).map EdgeRecord.edgeId).Nodup
  | [], _ => by simp [retainFirst]
  | e :: es, seen => by
    simp only [retainFirst]
    split
    · exact nodup_retainFirst es seen
    · rw [List.map_cons, List.nodup_cons]
      refine ⟨fun hm => ?_, nodup_retainFirst es _⟩
      obtain ⟨r, hr, hid⟩ := List.mem_map.mp hm
      exact (mem_of_mem_retainFirst hr).2 (hid ▸ List.mem_cons_self)

theorem retainFirst_covers {r : EdgeRecord} :
    ∀ {l : List EdgeRecord} {seen : List Int64}, r ∈ l → r.edgeId ∉ seen → ∃ r' ∈ retainFirst l seen, r'.edgeId = r.edgeId
  | [], _, h, _ => by simp at h
  | e :: es, seen, h, hn => by
    simp only [retainFirst, List.contains_eq_mem, decide_eq_true_eq]
    rcases List.mem_cons.mp h with rfl | h
    · exact ⟨r, by simp [hn], rfl⟩
    · split
      · exact retainFirst_covers h hn
      · by_cases he : r.edgeId = e.edgeId
        · exact ⟨e, List.mem_cons_self, he.symm⟩
        · obtain ⟨r', hr', hid⟩ : ∃ r' ∈ retainFirst es (e.edgeId :: seen), r'.edgeId = r.edgeId :=
            retainFirst_covers h (by simp [he, hn])
          exact ⟨r', List.mem_cons_of_mem _ hr', hid⟩

/-- Where the id determines the record, keeping the first record of each id loses none. -/
theorem mem_retainFirst {l : List EdgeRecord} (h : ∀ r ∈ l, ∀ r' ∈ l, r.edgeId = r'.edgeId → r = r') {r : EdgeRecord} :
    r ∈ retainFirst l [] ↔ r ∈ l := by
  refine ⟨fun hr => (mem_of_mem_retainFirst hr).1, fun hr => ?_⟩
  obtain ⟨r', hr', hid⟩ := retainFirst_covers hr (List.not_mem_nil : r.edgeId ∉ [])
  rw [h r hr r' (mem_of_mem_retainFirst hr').1 hid.symm]
  exact hr'

/-- Followed in both directions a node gives each of its edges once. -/
theorem mem_followed_both {edges : Relation} (h : DistinctEdgeIds edges) {n : Int64} {relTypeFilter : Option Int32}
    {r : EdgeRecord} :
    r ∈ followed edges n relTypeFilter .both ↔ r ∈ walk edges true n relTypeFilter ∨ r ∈ walk edges false n relTypeFilter := by
  have hlive : ∀ r ∈ walk edges true n relTypeFilter ++ walk edges false n relTypeFilter, r ∈ liveRecords edges := by
    intro r hr
    simp only [walk_eq, List.mem_append, List.mem_filter] at hr
    exact hr.elim And.left And.left
  rw [followed, mem_retainFirst fun r hr r' hr' hid =>
    List.inj_on_of_nodup_map h.nodup_live (hlive r hr) (hlive r' hr') hid, List.mem_append]

/-! ## What the calls do to them -/

/-- An item at the end is the newest edge. -/
theorem liveRecords_append {edges edges' : Relation} {e : EdgeItem} {r : EdgeRecord}
    (h : edgeItems edges' = edgeItems edges ++ [e]) (hu : e.undeleted = true) (hr : e.record = some r) :
    liveRecords edges' = r :: liveRecords edges := by
  rw [liveRecords, h, List.reverse_append, List.reverse_singleton, List.singleton_append, List.filterMap_cons,
    EdgeItem.live_eq_some.mpr ⟨hu, hr⟩]
  rfl

theorem DistinctEdgeIds.append {edges edges' : Relation} {e : EdgeItem} (h : DistinctEdgeIds edges)
    (hitems : edgeItems edges' = edgeItems edges ++ [e]) (hnew : ∀ d ∈ edgeItems edges, d.edgeId ≠ e.edgeId) :
    DistinctEdgeIds edges' := by
  rw [DistinctEdgeIds, hitems, List.map_append, List.nodup_append]
  refine ⟨h, by simp, fun a ha b hb hab => ?_⟩
  obtain ⟨d, hd, rfl⟩ := List.mem_map.mp ha
  simp only [List.map_cons, List.map_nil, List.mem_singleton] at hb
  exact hnew d hd (hab.trans hb)

theorem DistinctEdgeIds.map {edges edges' : Relation} (h : DistinctEdgeIds edges) (f : EdgeItem → EdgeItem)
    (hitems : edgeItems edges' = (edgeItems edges).map f) (hid : ∀ e, (f e).edgeId = e.edgeId) : DistinctEdgeIds edges' := by
  rw [DistinctEdgeIds, hitems, List.map_map]
  simp only [Function.comp_def, hid]
  exact h

/-- A mark takes the edge with its id out of the undeleted ones. -/
theorem liveRecords_setXmaxAt {edges : Relation} (h : DistinctEdgeIds edges) {e : EdgeItem} (he : e ∈ edgeItems edges)
    (xmax : Xid) :
    liveRecords (setXmaxAt edges e.loc.1 e.loc.2 xmax) = (liveRecords edges).filter (fun r => r.edgeId ≠ e.edgeId) := by
  rw [liveRecords, edgeItems_setXmaxAt he, ← List.map_reverse, List.filterMap_map, liveRecords, List.filter_filterMap]
  refine List.filterMap_congr fun d hd => ?_
  have hd := List.mem_reverse.mp hd
  simp only [Function.comp_apply]
  by_cases hl : d.loc = e.loc
  · rw [if_pos hl, eq_of_mem_edgeItems hd he hl]
    cases hlive : e.live with
    | none => simp [EdgeItem.live]
    | some r => simp [EdgeItem.live, Option.filter_some, (EdgeItem.record_fields (EdgeItem.live_eq_some.mp hlive).2).1]
  · rw [if_neg hl]
    cases hlive : d.live with
    | none => rfl
    | some r =>
      have hne : d.edgeId ≠ e.edgeId := fun hid => hl (congrArg EdgeItem.loc (h.inj hd he hid))
      rw [Option.filter_some, if_pos]
      simpa [(EdgeItem.record_fields (EdgeItem.live_eq_some.mp hlive).2).1] using hne

end PgEddy
