import Mathlib.Data.List.Nodup
import PgEddy.Executor

/-!
# Walks of variable length

The search gives out the walks that use no relationship twice and none of the excluded ones. Excluding more relationships takes
out the walks that use them, and leaves the others in their order.
-/

namespace PgEddy

/-- A relationship that is followed from a node is found by its id. -/
def Graph.FindsFollowed (G : Graph) : Prop :=
  ∀ nodeId direction, ∀ e ∈ G.adjacencyFollow nodeId direction, ∃ e', G.findEdge e.edgeId = some e' ∧ e'.edgeId = e.edgeId

variable {G : Graph}

/-- What holds of the first entries, and of the entries after one it holds of, holds of every entry. -/
theorem bfsOrder_forall {next : BfsEntry → List BfsEntry} {P : BfsEntry → Prop} (hnext : ∀ e, P e → ∀ e' ∈ next e, P e')
    (levels : Nat) {entries : List BfsEntry} (h : ∀ e ∈ entries, P e) : ∀ e ∈ bfsOrder next levels entries, P e := by
  induction levels generalizing entries with
  | zero => exact h
  | succ levels ih =>
    intro e he
    rcases List.mem_append.mp he with he | he
    · exact h e he
    · refine ih (fun e' he' => ?_) e he
      obtain ⟨e₀, he₀, he'⟩ := List.mem_flatMap.mp he'
      exact hnext e₀ (h e₀ he₀) e' he'

/-- A search whose steps keep to some entries finds those entries of the other search. -/
theorem bfsOrder_filter {next next' : BfsEntry → List BfsEntry} {keep : BfsEntry → Bool}
    (hnext : ∀ e, (next e).filter keep = if keep e then next' e else []) (levels : Nat) (entries : List BfsEntry) :
    (bfsOrder next levels entries).filter keep = bfsOrder next' levels (entries.filter keep) := by
  induction levels generalizing entries with
  | zero => rfl
  | succ levels ih =>
    have hstep : (entries.flatMap next).filter keep = (entries.filter keep).flatMap next' := by
      induction entries with
      | nil => rfl
      | cons e entries ihe =>
        rw [List.flatMap_cons, List.filter_append, hnext, ihe, List.filter_cons]
        split
        · rw [List.flatMap_cons]
        · rfl
    unfold bfsOrder
    rw [List.filter_append, ih, hstep]

/-- The walk uses none of the relationships. -/
def avoids (edgeIds : List Int64) (entry : BfsEntry) : Bool := entry.pathEdgeIds.all fun id => !edgeIds.contains id

theorem avoids_iff {edgeIds : List Int64} {entry : BfsEntry} :
    avoids edgeIds entry = true ↔ List.Disjoint edgeIds entry.pathEdgeIds := by
  unfold avoids
  rw [List.all_eq_true, List.disjoint_right]
  simp only [List.contains_eq_mem, Bool.not_eq_true', decide_eq_false_iff_not]

theorem nextEntries_avoids {op op' : VarLengthExpand} (htypes : op'.relTypes = op.relTypes)
    (hdir : op'.direction = op.direction) {excluded excluded' extra : List Int64}
    (hex : ∀ id, id ∈ excluded' ↔ id ∈ excluded ∨ id ∈ extra) (entry : BfsEntry) :
    (nextEntries G op excluded entry).filter (avoids extra) =
      if avoids extra entry then nextEntries G op' excluded' entry else [] := by
  unfold nextEntries
  rw [List.filter_map, List.filter_filter, htypes, hdir]
  have hsame : ∀ e : RelRecord, (avoids extra ∘ fun e : RelRecord =>
      (⟨e.other entry.nodeId op.direction, entry.depth + 1, entry.pathNodeIds ++ [e.other entry.nodeId op.direction],
        entry.pathEdgeIds ++ [e.edgeId]⟩ : BfsEntry)) e = (avoids extra entry && !extra.contains e.edgeId) := by
    intro e
    simp only [Function.comp, avoids, List.all_append, List.all_cons, List.all_nil, Bool.and_true]
  have hmem : ∀ id, excluded'.contains id = (excluded.contains id || extra.contains id) := by
    intro id
    simp only [List.contains_eq_mem, hex, Bool.decide_or]
  split
  · rename_i hav
    refine congrArg _ (List.filter_congr fun e _ => ?_)
    rw [hsame, hav, Bool.true_and, hmem, Bool.not_or, Bool.and_left_comm]
    cases excluded.contains e.edgeId <;> cases extra.contains e.edgeId <;> rfl
  · rename_i hav
    rw [List.filter_eq_nil_iff.mpr, List.map_nil]
    intro e _
    rw [hsame, Bool.eq_false_iff.mpr hav]
    simp

/-- The search that leaves out more relationships finds the walks of the other that avoid them. -/
theorem walksFrom_avoids {op op' : VarLengthExpand} (htypes : op'.relTypes = op.relTypes)
    (hdir : op'.direction = op.direction) (hmax : op'.maxHops = op.maxHops) {excluded excluded' extra : List Int64}
    (hex : ∀ id, id ∈ excluded' ↔ id ∈ excluded ∨ id ∈ extra) (startId : Int64) :
    walksFrom G op' excluded' startId = (walksFrom G op excluded startId).filter (avoids extra) := by
  have hdepth : maxDepth op' = maxDepth op := by unfold maxDepth; rw [hmax]
  unfold walksFrom
  rw [bfsOrder_filter (nextEntries_avoids htypes hdir hex), hdepth]
  rfl

/-- A walk that the search gives out: its relationships are different from each other, none is excluded, and all are found. -/
structure IsWalk (G : Graph) (excluded : List Int64) (entry : BfsEntry) : Prop where
  nodup : entry.pathEdgeIds.Nodup
  notExcluded : List.Disjoint excluded entry.pathEdgeIds
  found : ∀ id ∈ entry.pathEdgeIds, ∃ e, G.findEdge id = some e ∧ e.edgeId = id

theorem walksFrom_isWalk (hG : G.FindsFollowed) (op : VarLengthExpand) (excluded : List Int64) (startId : Int64) :
    ∀ entry ∈ walksFrom G op excluded startId, IsWalk G excluded entry := by
  apply bfsOrder_forall
  · intro entry h entry' hmem
    obtain ⟨e, he, rfl⟩ := List.mem_map.mp hmem
    rw [List.mem_filter] at he
    obtain ⟨hfollow, hnew⟩ := he
    simp only [List.contains_eq_mem, Bool.and_eq_true, Bool.not_eq_true', decide_eq_false_iff_not] at hnew
    refine ⟨?_, ?_, ?_⟩
    · exact List.nodup_append.mpr ⟨h.nodup, List.nodup_singleton _, fun a ha b hb => by
        rw [List.mem_singleton.mp hb]
        exact fun hab => hnew.1 (hab ▸ ha)⟩
    · rw [List.disjoint_append_right]
      exact ⟨h.notExcluded, List.disjoint_singleton.mpr hnew.2⟩
    · intro id hid
      rcases List.mem_append.mp hid with hid | hid
      · exact h.found id hid
      · rw [List.mem_singleton.mp hid]
        exact hG _ _ e (List.mem_filter.mp hfollow).1
  · intro entry hmem
    rw [List.mem_singleton.mp hmem]
    exact ⟨List.nodup_nil, List.disjoint_nil_right _, fun _ h => absurd h List.not_mem_nil⟩

end PgEddy
