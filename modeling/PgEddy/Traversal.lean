import Mathlib.Data.List.Induction
import PgEddy.Executor
import PgEddy.Lib.LevelOrder

/-!
# Walks in the graph

What the search of a variable-length pattern is for: the sequences of relationships that follow on each other in the direction
of the pattern. The graph of a snapshot is sound when the relationships at a node are those that the snapshot sees there.
-/

namespace PgEddy

/-! ## Walks -/

/-- The relationship leads from one node to another in a direction. -/
def RelRecord.Leads (e : RelRecord) (direction : RelDirection) (a b : Int64) : Prop :=
  match direction with
  | .out => e.source = a ∧ e.target = b
  | .in_ => e.target = a ∧ e.source = b
  | .both => e.source = a ∧ e.target = b ∨ e.target = a ∧ e.source = b

/-- The relationships lead from one node to another, each from the node where the one before it ends. -/
def Follows (direction : RelDirection) : Int64 → List RelRecord → Int64 → Prop
  | a, [], c => a = c
  | a, e :: es, c => ∃ b, e.Leads direction a b ∧ Follows direction b es c

/-- A graph of live relationships between live nodes, each found by its id and at both of its ends. -/
structure Graph.Sound (G : Graph) : Prop where
  adjacencyFollow : ∀ nodeId direction e,
    e ∈ G.adjacencyFollow nodeId direction ↔ G.findEdge e.edgeId = some e ∧ ∃ b, e.Leads direction nodeId b
  nodup : ∀ nodeId direction, (G.adjacencyFollow nodeId direction).Nodup
  edgeId : ∀ id e, G.findEdge id = some e → e.edgeId = id
  source : ∀ id e, G.findEdge id = some e → (G.findNode e.source).isSome
  target : ∀ id e, G.findEdge id = some e → (G.findNode e.target).isSome

variable (G : Graph)

/-- A walk that a variable-length pattern asks for: of live relationships, different from each other, of the types of the
pattern, none of them excluded. -/
structure IsTrail (op : VarLengthExpand) (excluded : List Int64) (a : Int64) (es : List RelRecord) (b : Int64) : Prop where
  follows : Follows op.direction a es b
  live : ∀ e ∈ es, G.findEdge e.edgeId = some e
  types : ∀ e ∈ es, op.relTypes = [] ∨ e.relType ∈ op.relTypes
  nodup : (es.map RelRecord.edgeId).Nodup
  notExcluded : ∀ e ∈ es, e.edgeId ∉ excluded

/-! ## The search over sequences of relationships -/

/-- The node where relationships lead to. -/
def walkEnd (direction : RelDirection) : Int64 → List RelRecord → Int64
  | a, [] => a
  | a, e :: es => walkEnd direction (e.other a direction) es

/-- The nodes that relationships lead over, the first one included. -/
def walkNodes (direction : RelDirection) : Int64 → List RelRecord → List Int64
  | a, [] => [a]
  | a, e :: es => a :: walkNodes direction (e.other a direction) es

/-- The entry of the queue for a walk. -/
def entryOf (direction : RelDirection) (startId : Int64) (es : List RelRecord) : BfsEntry :=
  ⟨walkEnd direction startId es, es.length, walkNodes direction startId es, es.map RelRecord.edgeId⟩

/-- The relationships by which a walk can go on. -/
def moreRels (op : VarLengthExpand) (excluded : List Int64) (startId : Int64) (es : List RelRecord) : List RelRecord :=
  (followTypes G op.relTypes (walkEnd op.direction startId es) op.direction).filter fun e =>
    !(es.map RelRecord.edgeId).contains e.edgeId && !excluded.contains e.edgeId

/-- The walks that the search tries. -/
def trails (op : VarLengthExpand) (excluded : List Int64) (startId : Int64) : List (List RelRecord) :=
  Search.levelOrder (Search.extend (moreRels G op excluded startId)) (maxDepth op) [[]]

/-- What a round puts behind the queue: the walks one relationship longer, below the greatest depth. -/
def queued (op : VarLengthExpand) (excluded : List Int64) (entry : BfsEntry) : List BfsEntry :=
  if entry.depth < maxDepth op then nextEntries G op excluded entry else []

/-- The queue run for some rounds from the first node. -/
def runQueue (op : VarLengthExpand) (excluded : List Int64) (startId : Int64) (rounds : Nat) : Option (List BfsEntry) :=
  Search.queueRun (queued G op excluded) rounds [⟨startId, 0, [startId], []⟩]

/-! ### Walks one relationship longer -/

variable {G} {direction : RelDirection}

theorem RelRecord.leads_iff {e : RelRecord} {a b : Int64} :
    e.Leads direction a b ↔ (∃ c, e.Leads direction a c) ∧ b = e.other a direction := by
  cases direction with
  | out => simp [RelRecord.Leads, RelRecord.other, eq_comm]
  | in_ => simp [RelRecord.Leads, RelRecord.other, eq_comm]
  | both =>
    by_cases h : e.source = a
    · simp [RelRecord.Leads, RelRecord.other, h]
      grind
    · simp [RelRecord.Leads, RelRecord.other, h, eq_comm]

theorem walkEnd_append (a : Int64) (es es' : List RelRecord) :
    walkEnd direction a (es ++ es') = walkEnd direction (walkEnd direction a es) es' := by
  induction es generalizing a with
  | nil => rfl
  | cons e es ih => exact ih _

theorem walkNodes_snoc (a : Int64) (es : List RelRecord) (e : RelRecord) :
    walkNodes direction a (es ++ [e]) = walkNodes direction a es ++ [e.other (walkEnd direction a es) direction] := by
  induction es generalizing a with
  | nil => rfl
  | cons e' es ih => exact congrArg (a :: ·) (ih _)

theorem follows_snoc {a c : Int64} {es : List RelRecord} {e : RelRecord} :
    Follows direction a (es ++ [e]) c ↔ ∃ b, Follows direction a es b ∧ e.Leads direction b c := by
  induction es generalizing a with
  | nil => simp [Follows]
  | cons e' es ih =>
    simp only [List.cons_append, Follows, ih]
    constructor
    · rintro ⟨b, hb, d, hd, he⟩
      exact ⟨d, ⟨b, hb, hd⟩, he⟩
    · rintro ⟨d, ⟨b, hb, hd⟩, he⟩
      exact ⟨b, hb, d, hd, he⟩

/-- Relationships that lead somewhere lead to the end of the walk. -/
theorem Follows.eq_walkEnd {a c : Int64} {es : List RelRecord} (h : Follows direction a es c) :
    c = walkEnd direction a es := by
  induction es generalizing a with
  | nil => exact Eq.symm h
  | cons e es ih =>
    obtain ⟨b, hb, h⟩ := h
    rw [ih h, (RelRecord.leads_iff.mp hb).2]
    rfl

theorem entryOf_snoc (startId : Int64) (es : List RelRecord) (e : RelRecord) :
    entryOf direction startId (es ++ [e]) =
      ⟨e.other (walkEnd direction startId es) direction, es.length + 1,
        walkNodes direction startId es ++ [e.other (walkEnd direction startId es) direction],
        es.map RelRecord.edgeId ++ [e.edgeId]⟩ := by
  unfold entryOf
  rw [walkEnd_append, walkNodes_snoc, List.length_append, List.map_append]
  rfl

/-! ### The entries of the queue are the walks -/

theorem bfsOrder_eq_levelOrder (next : BfsEntry → List BfsEntry) (levels : Nat) (entries : List BfsEntry) :
    bfsOrder next levels entries = Search.levelOrder next levels entries := by
  induction levels generalizing entries with
  | zero => rfl
  | succ levels ih => exact congrArg (entries ++ ·) (ih _)

theorem nextEntries_entryOf (op : VarLengthExpand) (excluded : List Int64) (startId : Int64) (es : List RelRecord) :
    nextEntries G op excluded (entryOf op.direction startId es) =
      (Search.extend (moreRels G op excluded startId) es).map (entryOf op.direction startId) := by
  unfold nextEntries Search.extend
  rw [List.map_map]
  refine List.map_congr_left fun e _ => ?_
  exact (entryOf_snoc startId es e).symm

theorem walksFrom_eq (op : VarLengthExpand) (excluded : List Int64) (startId : Int64) :
    walksFrom G op excluded startId = (trails G op excluded startId).map (entryOf op.direction startId) := by
  unfold walksFrom trails
  rw [bfsOrder_eq_levelOrder, ← Search.levelOrder_map (nextEntries_entryOf op excluded startId)]
  rfl

/-- The queue is empty after as many rounds as there are walks, and has given out the walks. -/
theorem runQueue_eq (op : VarLengthExpand) (excluded : List Int64) (startId : Int64) {rounds : Nat}
    (h : (walksFrom G op excluded startId).length ≤ rounds) :
    runQueue G op excluded startId rounds = some (walksFrom G op excluded startId) := by
  unfold walksFrom at h ⊢
  rw [bfsOrder_eq_levelOrder] at h ⊢
  refine Search.queueRun_eq_levelOrder (r := BfsEntry.depth) ?_ (fun _ => rfl) (maxDepth op) ?_ h
  · intro entry entry' hmem
    obtain ⟨e, -, rfl⟩ := List.mem_map.mp hmem
    rfl
  · intro entry hmem
    rw [List.mem_singleton.mp hmem, Nat.zero_add]

/-! ### The walks are the trails -/

theorem isTrail_nil {op : VarLengthExpand} {excluded : List Int64} {a b : Int64} :
    IsTrail G op excluded a [] b ↔ b = a :=
  ⟨fun h => Eq.symm h.follows, fun h =>
    ⟨h.symm, by simp, by simp, List.nodup_nil, by simp⟩⟩

theorem IsTrail.eq_walkEnd {op : VarLengthExpand} {excluded : List Int64} {a b : Int64} {es : List RelRecord}
    (h : IsTrail G op excluded a es b) : b = walkEnd op.direction a es := h.follows.eq_walkEnd

theorem mem_moreRels (hG : G.Sound) {op : VarLengthExpand} {excluded : List Int64} {startId : Int64}
    {es : List RelRecord} {e : RelRecord} :
    e ∈ moreRels G op excluded startId es ↔
      (G.findEdge e.edgeId = some e ∧ ∃ b, e.Leads op.direction (walkEnd op.direction startId es) b) ∧
        (op.relTypes = [] ∨ e.relType ∈ op.relTypes) ∧ e.edgeId ∉ es.map RelRecord.edgeId ∧ e.edgeId ∉ excluded := by
  unfold moreRels followTypes
  rw [List.mem_filter, List.mem_filter, hG.adjacencyFollow, and_assoc]
  simp only [Bool.or_eq_true, List.isEmpty_iff, List.contains_eq_mem, decide_eq_true_eq, Bool.and_eq_true,
    Bool.not_eq_true', decide_eq_false_iff_not]

theorem isTrail_snoc (hG : G.Sound) {op : VarLengthExpand} {excluded : List Int64} {a : Int64} {es : List RelRecord}
    {e : RelRecord} :
    (∃ c, IsTrail G op excluded a (es ++ [e]) c) ↔
      (∃ b, IsTrail G op excluded a es b) ∧ e ∈ moreRels G op excluded a es := by
  rw [mem_moreRels hG]
  constructor
  · rintro ⟨c, h⟩
    obtain ⟨b, hb, he⟩ := follows_snoc.mp h.follows
    have hmem : e ∈ es ++ [e] := List.mem_append_right _ (List.mem_singleton_self e)
    have hnodup := h.nodup
    rw [List.map_append, List.nodup_append] at hnodup
    rw [← hb.eq_walkEnd]
    refine ⟨⟨b, hb, fun e' he' => h.live e' (List.mem_append_left _ he'),
      fun e' he' => h.types e' (List.mem_append_left _ he'), hnodup.1,
      fun e' he' => h.notExcluded e' (List.mem_append_left _ he')⟩,
      ⟨h.live e hmem, c, he⟩, h.types e hmem, fun hin => ?_, h.notExcluded e hmem⟩
    exact hnodup.2.2 _ hin _ (List.mem_singleton_self _) rfl
  · rintro ⟨⟨b, h⟩, ⟨hlive, c, he⟩, htypes, hnew, hex⟩
    rw [← h.eq_walkEnd] at he
    refine ⟨c, follows_snoc.mpr ⟨b, h.follows, he⟩, ?_, ?_, ?_, ?_⟩
    · intro e' he'
      rcases List.mem_append.mp he' with he' | he'
      · exact h.live e' he'
      · exact List.mem_singleton.mp he' ▸ hlive
    · intro e' he'
      rcases List.mem_append.mp he' with he' | he'
      · exact h.types e' he'
      · exact List.mem_singleton.mp he' ▸ htypes
    · rw [List.map_append, List.nodup_append]
      exact ⟨h.nodup, List.nodup_singleton _, fun x hx y hy hxy => hnew (List.mem_singleton.mp hy ▸ hxy ▸ hx)⟩
    · intro e' he'
      rcases List.mem_append.mp he' with he' | he'
      · exact h.notExcluded e' he'
      · exact List.mem_singleton.mp he' ▸ hex

theorem grows_iff_isTrail (hG : G.Sound) {op : VarLengthExpand} {excluded : List Int64} {startId : Int64}
    {es : List RelRecord} :
    Search.Grows (moreRels G op excluded startId) es ↔ ∃ b, IsTrail G op excluded startId es b := by
  induction es using List.reverseRecOn with
  | nil => exact ⟨fun _ => ⟨startId, isTrail_nil.mpr rfl⟩, fun _ => Search.grows_nil _⟩
  | append_singleton es e ih => rw [Search.grows_snoc, ih, isTrail_snoc hG]

/-- The search tries the trails of up to the greatest depth. -/
theorem mem_trails (hG : G.Sound) {op : VarLengthExpand} {excluded : List Int64} {startId : Int64} {es : List RelRecord} :
    es ∈ trails G op excluded startId ↔ es.length ≤ maxDepth op ∧ ∃ b, IsTrail G op excluded startId es b := by
  unfold trails
  rw [Search.mem_levelOrder_extend (n := 0), Nat.zero_add, grows_iff_isTrail hG]
  · simp
  · intro es'
    rw [List.mem_singleton]
    constructor
    · rintro rfl
      exact ⟨rfl, Search.grows_nil _⟩
    · rintro ⟨hlen, -⟩
      exact List.eq_nil_of_length_eq_zero hlen

/-- It tries each of them once. -/
theorem nodup_trails (hG : G.Sound) (op : VarLengthExpand) (excluded : List Int64) (startId : Int64) :
    (trails G op excluded startId).Nodup := by
  refine (Search.nodup_levelOrder_extend (fun es => ?_) (n := 0) (fun es hes => ?_) (List.nodup_singleton _)).1
  · exact ((hG.nodup _ _).filter _).filter _
  · rw [List.mem_singleton.mp hes]
    rfl

/-- A trail from a live node ends at a live node. -/
theorem IsTrail.findNode (hG : G.Sound) {op : VarLengthExpand} {excluded : List Int64} {a b : Int64} {es : List RelRecord}
    (ha : (G.findNode a).isSome) (h : IsTrail G op excluded a es b) : (G.findNode b).isSome := by
  rcases List.eq_nil_or_concat es with rfl | ⟨es, e, rfl⟩
  · exact isTrail_nil.mp h ▸ ha
  · rw [List.concat_eq_append] at h
    obtain ⟨c, -, he⟩ := follows_snoc.mp h.follows
    have hlive := h.live e (List.mem_append_right _ (List.mem_singleton_self e))
    unfold RelRecord.Leads at he
    split at he
    · exact he.2 ▸ hG.target _ _ hlive
    · exact he.2 ▸ hG.source _ _ hlive
    · rcases he with he | he
      · exact he.2 ▸ hG.target _ _ hlive
      · exact he.2 ▸ hG.source _ _ hlive

/-! ## Where a walk is -/

theorem walkNodes_zero (a : Int64) (es : List RelRecord) : (walkNodes direction a es)[0]? = some a := by
  cases es <;> rfl

/-- A relationship of a walk leads from the node before it to the node after it. -/
theorem Follows.leads {a c : Int64} {es : List RelRecord} (h : Follows direction a es c) {i : Nat} {e : RelRecord}
    (he : es[i]? = some e) :
    ∃ b b', (walkNodes direction a es)[i]? = some b ∧ (walkNodes direction a es)[i + 1]? = some b' ∧
      e.Leads direction b b' := by
  induction es generalizing a i with
  | nil => cases he
  | cons e' es ih =>
    obtain ⟨b, hb, h⟩ := h
    have hnext := (RelRecord.leads_iff.mp hb).2
    cases i with
    | zero =>
      cases he
      exact ⟨a, b, rfl, hnext ▸ walkNodes_zero _ es, hb⟩
    | succ i =>
      rw [hnext] at h
      exact ih h he

/-! ## Graphs given by their nodes and relationships -/

/-- The graph of the listed nodes and relationships, all of them live. -/
def Graph.ofLists (nodes : List (Int64 × NodeEntry)) (edges : List RelRecord) : Graph where
  scanNodes := nodes.map Prod.fst
  labelIndex label := some ((nodes.filter fun n => n.2.labels.contains label).map Prod.fst)
  findNode id := nodes.lookup id
  findEdge id := edges.find? fun e => e.edgeId = id
  adjacencyFollow id direction := edges.filter fun e =>
    match direction with
    | .out => e.source = id
    | .in_ => e.target = id
    | .both => e.source = id || e.target = id
  lookupNodes _ _ _ := []

theorem Graph.ofLists_sound {nodes : List (Int64 × NodeEntry)} {edges : List RelRecord}
    (hids : (edges.map RelRecord.edgeId).Nodup)
    (hends : ∀ e ∈ edges, (nodes.lookup e.source).isSome ∧ (nodes.lookup e.target).isSome) :
    (Graph.ofLists nodes edges).Sound := by
  have hfind : ∀ id e, (Graph.ofLists nodes edges).findEdge id = some e → e ∈ edges ∧ e.edgeId = id := by
    intro id e h
    change edges.find? (fun e => decide (e.edgeId = id)) = some e at h
    exact ⟨List.mem_of_find?_eq_some h, by simpa using List.find?_some h⟩
  have hlive : ∀ e, (Graph.ofLists nodes edges).findEdge e.edgeId = some e ↔ e ∈ edges := by
    intro e
    refine ⟨fun h => (hfind _ e h).1, fun h => ?_⟩
    cases hfound : edges.find? fun e' => e'.edgeId = e.edgeId with
    | none => exact absurd (decide_eq_true rfl) (List.find?_eq_none.mp hfound e h)
    | some e' =>
      have := hfind _ e' hfound
      have hsame := List.inj_on_of_nodup_map hids this.1 h this.2
      exact hsame ▸ hfound
  refine ⟨fun nodeId direction e => ?_, fun nodeId direction => ?_, fun id e h => (hfind id e h).2,
    fun id e h => (hends e (hfind id e h).1).1, fun id e h => (hends e (hfind id e h).1).2⟩
  · rw [hlive]
    refine List.mem_filter.trans (and_congr_right fun _ => ?_)
    cases direction with
    | out => simp [RelRecord.Leads]
    | in_ => simp [RelRecord.Leads]
    | both => simp [RelRecord.Leads, exists_or]
  · exact (List.Nodup.of_map _ hids).filter _

end PgEddy
