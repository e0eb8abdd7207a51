import PgEddy.Traversal

/-!
# The rows of a variable-length pattern

The search of a variable-length pattern ends, and gives one row for each walk that the pattern asks for.
-/

namespace PgEddy

variable (E : Engine) (G : Graph)

/-- The walk has a length that the pattern asks for and ends at the bound destination, if there is one. -/
def IsMatch (op : VarLengthExpand) (excluded : List Int64) (startId : Int64) (bound : Option Int64)
    (es : List RelRecord) : Prop :=
  (op.minHops ≤ es.length ∧ es.length ≤ min (op.maxHops.getD (2 ^ 32 - 1)) 256) ∧
    ∃ b, IsTrail G op excluded startId es b ∧ ∀ d ∈ bound, b = d

/-- The row of a walk. -/
def trailRow (op : VarLengthExpand) (row : E.Row) (srcVal : E.Value) (startId : Int64) (es : List RelRecord) : E.Row :=
  walkRow E G op row srcVal (nodeOrNull E G (walkEnd op.direction startId es)) (entryOf op.direction startId es)

/-- What the search asks of a walk that it has tried. -/
def accepts (op : VarLengthExpand) (startId : Int64) (bound : Option Int64) (es : List RelRecord) : Bool :=
  op.minHops ≤ es.length && !bound.any (· ≠ walkEnd op.direction startId es)

variable {G}

/-- A walk that has been tried is given out if it is accepted. -/
theorem emitEntry_entryOf (hG : G.Sound) {op : VarLengthExpand} {excluded : List Int64} {startId : Int64}
    (hlive : (G.findNode startId).isSome) (row : E.Row) (srcVal : E.Value) (bound : Option Int64)
    {es : List RelRecord} (hes : es ∈ trails G op excluded startId) :
    emitEntry E G op row srcVal bound (entryOf op.direction startId es) =
      if accepts op startId bound es then some (trailRow E G op row srcVal startId es) else none := by
  obtain ⟨-, b, htrail⟩ := (mem_trails hG).mp hes
  obtain ⟨r, hr⟩ := Option.isSome_iff_exists.mp (htrail.findNode hG hlive)
  rw [htrail.eq_walkEnd] at hr
  have hlong : isLongEnough op (entryOf op.direction startId es) = decide (op.minHops ≤ es.length) := by
    unfold isLongEnough entryOf
    rw [Bool.and_eq_left_iff_imp.mpr]
    intro hmin
    have := of_decide_eq_true hmin
    rw [Bool.or_eq_true, decide_eq_true_eq, decide_eq_true_eq]
    omega
  unfold emitEntry accepts
  rw [hlong]
  by_cases hmin : op.minHops ≤ es.length
  · rw [if_pos (decide_eq_true hmin), decide_eq_true hmin, Bool.true_and]
    simp only [entryOf, hr]
    by_cases hany : bound.any (· ≠ walkEnd op.direction startId es) = true
    · rw [hany]
      exact if_pos hany
    · rw [Bool.eq_false_iff.mpr hany]
      refine (if_neg hany).trans ?_
      simp only [trailRow, nodeOrNull, hr, Option.map_some, Option.getD_some]
      rfl
  · rw [decide_eq_false hmin, Bool.false_and]
    rfl

/-- The accepted ones of the walks that are tried are the matches. -/
theorem mem_accepted (hG : G.Sound) {op : VarLengthExpand} {excluded : List Int64} {startId : Int64} {bound : Option Int64}
    {es : List RelRecord} :
    es ∈ (trails G op excluded startId).filter (accepts op startId bound) ↔ IsMatch G op excluded startId bound es := by
  have hbound : (!bound.any (· ≠ walkEnd op.direction startId es)) = true ↔ ∀ d ∈ bound, walkEnd op.direction startId es = d := by
    cases bound with
    | none => simp
    | some d => simp [eq_comm]
  unfold accepts IsMatch
  rw [List.mem_filter, mem_trails hG, Bool.and_eq_true, decide_eq_true_eq, hbound]
  constructor
  · rintro ⟨⟨hmax, b, htrail⟩, hmin, hd⟩
    exact ⟨⟨hmin, hmax⟩, b, htrail, htrail.eq_walkEnd ▸ hd⟩
  · rintro ⟨⟨hmin, hmax⟩, b, htrail, hd⟩
    exact ⟨⟨hmax, b, htrail⟩, hmin, htrail.eq_walkEnd ▸ hd⟩

/-- From a row with a live source node the search of a variable-length pattern ends, and it gives exactly one row for each
walk from there of different relationships, of the types and the direction of the pattern, none of them excluded, of a length
between the bounds, that ends at the bound destination. An optional pattern without such a walk has one row of nulls. -/
theorem varLength_rows (hG : G.Sound) {op : VarLengthExpand} {row : E.Row} {params : Params} {startId : Int64}
    {labels : List String} {properties : List (String × Json)} {excluded : List Int64} {bound : Option E.Value}
    (hsrc : lookupVar E row params op.srcVar = .ok (some (.node startId labels properties)))
    (hlive : (G.findNode startId).isSome) (hex : excludedEdgeIds E row params op.excludedRelVars = .ok excluded)
    (hdst : boundDst E row params op.dstVar = .ok bound) :
    (∃ rounds, ∀ more, rounds ≤ more → runQueue G op excluded startId more = some (walksFrom G op excluded startId)) ∧
      ∃ ws : List (List RelRecord), ws.Nodup ∧
        (∀ es, es ∈ ws ↔ IsMatch G op excluded startId (bound.bind Value.nodeId) es) ∧
        varLengthRow E G op row params = .ok (if op.optional && ws.isEmpty then
            [nullWalk E op row (bound.bind Value.nodeId)]
          else ws.map (trailRow E G op row (.node startId labels properties) startId)) := by
  refine ⟨⟨_, fun more hmore => runQueue_eq op excluded startId hmore⟩,
    (trails G op excluded startId).filter (accepts op startId (bound.bind Value.nodeId)), ?_, ?_, ?_⟩
  · exact (nodup_trails hG op excluded startId).filter _
  · exact fun es => mem_accepted hG
  · have hrows : (walksFrom G op excluded startId).filterMap
        (emitEntry E G op row (.node startId labels properties) (bound.bind Value.nodeId)) =
        ((trails G op excluded startId).filter (accepts op startId (bound.bind Value.nodeId))).map
          (trailRow E G op row (.node startId labels properties) startId) := by
      rw [walksFrom_eq, List.filterMap_map, ← List.filterMap_eq_map, List.filterMap_filter]
      exact List.filterMap_congr fun es hes => emitEntry_entryOf E hG hlive row _ _ hes
    unfold varLengthRow
    rw [hsrc]
    simp only [bind, Except.bind, hex, hdst, pure, Except.pure, hrows]
    rw [List.isEmpty_map]

/-! ### Two parallel relationships and a loop -/

namespace VarLengthSearchAux

/-- The relationships 10 and 11 from the node 1 to the node 2, and 12 from the node 2 to itself. -/
def loops : Graph := .ofLists [(1, ⟨[], []⟩), (2, ⟨[], []⟩)] [⟨10, "R", 1, 2, []⟩, ⟨11, "R", 1, 2, []⟩, ⟨12, "S", 2, 2, []⟩]

theorem loops_sound : loops.Sound := Graph.ofLists_sound (by decide) (by decide)

/-- `(a)-[r*0..]-(b)`. -/
def anyLength : VarLengthExpand := ⟨"a", some "r", "b", [], .both, 0, none, false, none, ["s"]⟩

def bindsA : Engine.bare.Row := (∅ : Engine.bare.Row).insert "a" (.node 1 [] [])

end VarLengthSearchAux

open VarLengthSearchAux

theorem varLength_rows_loops :
    (∃ rounds, ∀ more, rounds ≤ more → runQueue loops anyLength [] 1 more = some (walksFrom loops anyLength [] 1)) ∧
      ∃ ws : List (List RelRecord), ws.Nodup ∧ (∀ es, es ∈ ws ↔ IsMatch loops anyLength [] 1 none es) ∧
        varLengthRow .bare loops anyLength bindsA ∅ = .ok (if anyLength.optional && ws.isEmpty then
            [nullWalk .bare anyLength bindsA none]
          else ws.map (trailRow .bare loops anyLength bindsA (.node 1 [] []) 1)) :=
  have hsrc : lookupVar .bare bindsA ∅ anyLength.srcVar = .ok (some (.node 1 [] [])) := by
    simp [lookupVar, bindsA, anyLength]
  have hex : excludedEdgeIds .bare bindsA ∅ anyLength.excludedRelVars = .ok [] := rfl
  have hdst : boundDst .bare bindsA ∅ anyLength.dstVar = .ok none := by
    simp [boundDst, lookupVar, bindsA, anyLength]
  varLength_rows .bare loops_sound hsrc (by decide) hex hdst

end PgEddy
