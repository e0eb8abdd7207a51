import PgEddy.Traversal

/-!
# The ends of the relationships of a walk

The path of a walk is built from the ids of its nodes and relationships. In an undirected pattern a relationship that is walked
against its direction gets its ends the wrong way round.
-/

namespace PgEddy

variable (E : Engine) (G : Graph)

/-- The relationships of the path have the ends that are stored for them, as those of the list do, and so do their start and
end nodes. -/
def KeepsEndpoints (nodeIds edgeIds : List Int64) (direction : RelDirection) : Prop :=
  ∃ nodes rels, buildPathFromIds E G nodeIds edgeIds direction = .path nodes rels ∧
    buildRelListFromIds E G edgeIds = .json (.array (rels.map Value.toJson)) ∧ rels.length = edgeIds.length ∧
    ∀ (i : Nat) (id : Int64), edgeIds[i]? = some id → ∃ e source target,
      G.findEdge id = some e ∧ G.findNode e.source = some source ∧ G.findNode e.target = some target ∧
      ∃ rel, rels[i]? = some rel ∧ rel = .edge id e.relType e.source e.target e.properties ∧
        startNode E G rel = .ok (source.value E e.source none) ∧ endNode E G rel = .ok (target.value E e.target none)

/-- Every relationship of the walk is walked from its source. -/
def WalkedFromSource (entry : BfsEntry) : Prop :=
  ∀ (i : Nat) (nodeId id : Int64) (e : RelRecord), entry.pathNodeIds[i]? = some nodeId → entry.pathEdgeIds[i]? = some id →
    G.findEdge id = some e → e.source = nodeId

variable {G}

/-- Only an undirected pattern turns a relationship round, one that is not walked from its source. -/
theorem walkEdge_of_leads {direction : RelDirection} {e : RelRecord} {a b : Int64} (h : e.Leads direction a b) :
    walkEdge E direction (some (a, b)) e =
      if direction = .both ∧ e.source ≠ a then .edge e.edgeId e.relType e.target e.source e.properties else e.value E := by
  cases direction with
  | out => simp [walkEdge, RelRecord.value, ← h.1, ← h.2]
  | in_ => simp [walkEdge, RelRecord.value, ← h.1, ← h.2]
  | both =>
    by_cases ha : e.source = a
    · simp [walkEdge, RelRecord.value, ha]
    · simp [walkEdge, ha]

variable (G) in
/-- The relationships of the path of a walk. -/
def pathRels (nodeIds edgeIds : List Int64) (direction : RelDirection) : List E.Value :=
  edgeIds.mapIdx fun i id =>
    let ends := nodeIds[i]?.bind fun a => nodeIds[i + 1]?.map fun b => (a, b)
    ((G.findEdge id).map (walkEdge E direction ends)).getD .null

/-- The relationship of the path at a place of a walk. -/
theorem pathRels_getElem? {direction : RelDirection} {a c : Int64} {es : List RelRecord} (h : Follows direction a es c)
    (hlive : ∀ e ∈ es, G.findEdge e.edgeId = some e) {i : Nat} {e : RelRecord} (he : es[i]? = some e) :
    ∃ b, (walkNodes direction a es)[i]? = some b ∧ e.Leads direction b (e.other b direction) ∧
      (pathRels E G (walkNodes direction a es) (es.map RelRecord.edgeId) direction)[i]? =
        some (if direction = .both ∧ e.source ≠ b then .edge e.edgeId e.relType e.target e.source e.properties
          else e.value E) := by
  obtain ⟨b, b', hb, hb', hleads⟩ := h.leads he
  refine ⟨b, hb, (RelRecord.leads_iff.mp hleads).2 ▸ hleads, ?_⟩
  unfold pathRels
  rw [List.getElem?_mapIdx, List.getElem?_map, he]
  simp only [Option.map_some, hlive e (List.mem_of_getElem? he), hb, hb', Option.bind_some, Option.getD_some]
  rw [walkEdge_of_leads E hleads]

/-- The list of the relationships of a walk has all of them. -/
theorem buildRelList_eq {es : List RelRecord} (hlive : ∀ e ∈ es, G.findEdge e.edgeId = some e) :
    buildRelListFromIds E G (es.map RelRecord.edgeId) = .json (.array ((es.map fun e => e.value E).map Value.toJson)) := by
  unfold buildRelListFromIds
  rw [List.filterMap_map, List.map_map]
  refine congrArg (fun items => Value.json (.array items)) ?_
  rw [← List.filterMap_eq_map]
  refine List.filterMap_congr fun e he => ?_
  simp only [Function.comp, hlive e he, Option.map_some]

/-- The stored relationships in the path of a walk are what its statement asks for. -/
theorem keepsEndpoints_of_stored (hG : G.Sound) {nodeIds : List Int64} {es : List RelRecord} {direction : RelDirection}
    (hlive : ∀ e ∈ es, G.findEdge e.edgeId = some e)
    (hrels : pathRels E G nodeIds (es.map RelRecord.edgeId) direction = es.map fun e => e.value E) :
    KeepsEndpoints E G nodeIds (es.map RelRecord.edgeId) direction := by
  refine ⟨_, _, rfl, ?_, List.length_mapIdx, fun i id hid => ?_⟩
  · exact (buildRelList_eq E hlive).trans (by rw [← hrels]; rfl)
  · obtain ⟨e, he, rfl⟩ := Option.map_eq_some_iff.mp (List.getElem?_map ▸ hid)
    have hfind := hlive e (List.mem_of_getElem? he)
    obtain ⟨source, hsource⟩ := Option.isSome_iff_exists.mp (hG.source _ e hfind)
    obtain ⟨target, htarget⟩ := Option.isSome_iff_exists.mp (hG.target _ e hfind)
    refine ⟨e, source, target, hfind, hsource, htarget, e.value E, ?_, rfl, ?_, ?_⟩
    · exact (congrArg (·[i]?) hrels).trans (by rw [List.getElem?_map, he]; rfl)
    · simp only [RelRecord.value, startNode, nodeOrNull, hsource, Option.map_some, Option.getD_some]
    · simp only [RelRecord.value, endNode, nodeOrNull, htarget, Option.map_some, Option.getD_some]

/-- The path of a walk keeps the stored ends if and only if the pattern is directed or every relationship of the walk is walked
from its source. -/
theorem path_keeps_endpoints_iff (hG : G.Sound) {op : VarLengthExpand} {excluded : List Int64} {startId : Int64}
    {entry : BfsEntry} (hentry : entry ∈ walksFrom G op excluded startId) :
    KeepsEndpoints E G entry.pathNodeIds entry.pathEdgeIds op.direction ↔
      op.direction ≠ .both ∨ WalkedFromSource G entry := by
  rw [walksFrom_eq] at hentry
  obtain ⟨es, hes, rfl⟩ := List.mem_map.mp hentry
  obtain ⟨-, c, htrail⟩ := (mem_trails hG).mp hes
  constructor
  · rintro ⟨nodes, rels, hpath, -, -, hkeeps⟩
    refine or_iff_not_imp_left.mpr fun hboth i nodeId id e hnode hid hfind => ?_
    obtain ⟨e', he, rfl⟩ := Option.map_eq_some_iff.mp (List.getElem?_map ▸ hid)
    cases (htrail.live e' (List.mem_of_getElem? he)).symm.trans hfind
    obtain ⟨b, hb, hleads, hrels⟩ := pathRels_getElem? E htrail.follows htrail.live he
    cases hb.symm.trans hnode
    obtain ⟨e', source, target, hfind', -, -, rel, hrel, rfl, -⟩ := hkeeps i _ hid
    cases hfind.symm.trans hfind'
    cases hpath
    have hsame := Option.some.inj (hrel.symm.trans hrels)
    by_contra hne
    rw [if_pos ⟨not_not.mp hboth, hne⟩] at hsame
    -- a relationship turned round that is equal to itself is a loop at the node it is walked from
    injection hsame with _ _ hsource _ _
    rw [not_not.mp hboth] at hleads
    rcases hleads with h | h
    · exact hne h.1
    · exact hne (hsource.trans h.1)
  · intro hcond
    refine keepsEndpoints_of_stored E hG htrail.live (List.ext_getElem? fun i => ?_)
    cases he : es[i]? with
    | none =>
      rw [List.getElem?_map, he, List.getElem?_eq_none]
      · rfl
      · rw [pathRels, List.length_mapIdx, List.length_map]
        exact List.getElem?_eq_none_iff.mp he
    | some e =>
      obtain ⟨b, hb, -, hrels⟩ := pathRels_getElem? E htrail.follows htrail.live he
      refine hrels.trans ?_
      rw [List.getElem?_map, he, if_neg]
      · rfl
      · rintro ⟨hboth, hne⟩
        rcases hcond with hdir | hfrom
        · exact hdir hboth
        · exact hne (hfrom i b e.edgeId e hb (by rw [entryOf, List.getElem?_map, he]; rfl)
            (htrail.live e (List.mem_of_getElem? he)))

/-! ### One relationship, walked both ways -/

namespace StoredEndpointsAux

/-- The relationship 10 from the node 1 to the node 2. -/
def pair : Graph := .ofLists [(1, ⟨[], []⟩), (2, ⟨[], []⟩)] [⟨10, "R", 1, 2, []⟩]

theorem pair_sound : pair.Sound := Graph.ofLists_sound (by decide) (by decide)

/-- `-[*1..1]-`. -/
def undirected : VarLengthExpand := ⟨"a", some "r", "b", [], .both, 1, some 1, false, some "p", []⟩

/-- `-[*1..1]->`. -/
def directed : VarLengthExpand := ⟨"a", some "r", "b", [], .out, 1, some 1, false, some "p", []⟩

end StoredEndpointsAux

open StoredEndpointsAux

/-- Walked from its source, the relationship keeps its ends. -/
theorem path_keeps_endpoints_directed : KeepsEndpoints .bare pair [1, 2] [10] .out :=
  have hentry : (⟨2, 1, [1, 2], [10]⟩ : BfsEntry) ∈ walksFrom pair directed [] 1 := by decide +kernel
  (path_keeps_endpoints_iff .bare pair_sound hentry).mpr (.inl (by decide))

/-- From the node 2 the undirected pattern walks the relationship to the node 1. The relationship of the path starts at the
node 2, the stored one at the node 1. -/
theorem path_turns_relationship : ∃ entry ∈ walksFrom pair undirected [] 2,
    ¬KeepsEndpoints .bare pair entry.pathNodeIds entry.pathEdgeIds undirected.direction := by
  refine ⟨⟨1, 1, [2, 1], [10]⟩, by decide +kernel, ?_⟩
  rintro ⟨nodes, rels, hpath, -, -, hkeeps⟩
  obtain ⟨e, -, -, hfind, -, -, rel, hrel, rfl, -⟩ := hkeeps 0 10 rfl
  cases hpath
  cases hfind
  cases hrel

end PgEddy
