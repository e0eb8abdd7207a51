import PgEddy.Executor
import PgEddy.Lib.Memo

/-!
# The destinations of an expansion

An expansion works through the relationships followed from its input rows, one after another. Whether a destination passes the
filters of the pattern is asked once and remembered: an expansion is a run of `Memo` over these relationships.
-/

namespace PgEddy

open Fallible

variable (E : Engine) (G : Graph) (op : Expand) (params : Params)

/-- A relationship followed from the node of an input row. -/
structure Hop where
  row : E.Row
  srcVal : E.Value
  nodeId : Int64
  edge : RelRecord

/-- The node that a row is expanded from, if there is one. -/
def expandSource (row : E.Row) : Exec (Option (E.Value × Int64)) := do
  match ← lookupVar E row params op.srcVar with
  | none => .error (.error ("unbound variable: " ++ op.srcVar))
  | some srcVal => return if srcVal.isNull then none else srcVal.nodeId.map fun nodeId => (srcVal, nodeId)

/-- The relationships followed from a row. -/
def hopsOfRow (row : E.Row) : List (Hop E) :=
  match expandSource E op params row with
  | .ok (some (srcVal, nodeId)) => (followTypes G op.relTypes nodeId op.direction).map fun e => ⟨row, srcVal, nodeId, e⟩
  | _ => []

/-- The relationships followed from a list of rows. -/
def hopsOf (rows : List E.Row) : List (Hop E) := rows.flatMap (hopsOfRow E G op params)

variable {E}

def Hop.dst (h : Hop E) : Int64 := h.edge.other h.nodeId op.direction

/-- The destination of a relationship, read and filtered in the row of the relationship. -/
def dstIn (h : Hop E) : Exec (Option E.Value) := Prod.fst <$> readDst E G op h.row params (h.dst op) []

/-- The row of a relationship to a destination that has passed its filters, if the relationship passes its own and the bound
variables agree with both. -/
def hopRows (h : Hop E) (dstVal : E.Value) : Exec (List E.Row) := do
  let edgeVal := h.edge.value E
  if !(← propsMatch E edgeVal (.ok h.row) params op.relProps) then return []
  else if !agreesRel E op h.row h.edge then return []
  else if !agreesDst E (← boundDst E h.row params op.dstVar) dstVal then return []
  else return [insertOpt E ((orInsert E h.row op.srcVar h.srcVal).insert op.dstVar dstVal) op.relVar edgeVal]

variable {G op params}

/-! ## The expansion as a run -/

theorem readDst_eq_remembered (h : Hop E) (cache : DstCache E) :
    readDst E G op h.row params (h.dst op) cache = Memo.remembered (Hop.dst op) (dstIn G op params) h cache := by
  unfold Memo.remembered dstIn readDst
  cases cache.lookup (h.dst op) with
  | some answer => rfl
  | none =>
    rw [List.lookup_nil]
    cases G.findNode (h.dst op) with
    | none => rfl
    | some r =>
      simp only
      split
      · rfl
      · cases propsMatch E (r.value E (h.dst op) op.neededDstProps) (.ok h.row) params op.dstProps with
        | error e => rfl
        | ok b => cases b <;> rfl

theorem expandEdge_eq (h : Hop E) (cache : DstCache E) :
    (fun r => (r.1.toList, r.2)) <$> expandEdge E G op h.row h.srcVal params h.nodeId h.edge cache = (do
      let (answer, cache) ← Memo.remembered (Hop.dst op) (dstIn G op params) h cache
      let out ← Memo.results (hopRows op params) h answer
      return (out, cache)) := by
  unfold expandEdge
  have hread : readDst E G op h.row params (h.edge.other h.nodeId op.direction) cache = _ := readDst_eq_remembered h cache
  rw [hread]
  cases Memo.remembered (Hop.dst op) (dstIn G op params) h cache with
  | error e => rfl
  | ok r =>
    obtain ⟨answer, cache'⟩ := r
    cases answer with
    | none => rfl
    | some dstVal =>
      simp only [ok_bind, Memo.results, hopRows]
      cases propsMatch E (h.edge.value E) (.ok h.row) params op.relProps with
      | error e => rfl
      | ok b =>
        cases b with
        | false => rfl
        | true =>
          simp only [ok_bind, Bool.not_true, Bool.false_eq_true, ↓reduceIte]
          cases agreesRel E op h.row h.edge with
          | false => rfl
          | true =>
            simp only [Bool.not_true, Bool.false_eq_true, ↓reduceIte]
            cases boundDst E h.row params op.dstVar with
            | error e => rfl
            | ok bound =>
              simp only [ok_bind]
              cases agreesDst E bound dstVal <;> rfl

theorem expandEdges_eq_run (row : E.Row) (srcVal : E.Value) (nodeId : Int64) (edges : List RelRecord) (cache : DstCache E) :
    expandEdges E G op row srcVal params nodeId edges cache =
      Memo.run (Hop.dst op) (dstIn G op params) (hopRows op params) (edges.map fun e => ⟨row, srcVal, nodeId, e⟩) cache := by
  induction edges generalizing cache with
  | nil => rfl
  | cons edge edges ih =>
    have hedge : _ <$> expandEdge E G op row srcVal params nodeId edge cache = _ :=
      expandEdge_eq ⟨row, srcVal, nodeId, edge⟩ cache
    rw [List.map_cons, Memo.run_cons_step, ← hedge, expandEdges]
    cases expandEdge E G op row srcVal params nodeId edge cache with
    | error e => rfl
    | ok r =>
      simp only [ok_bind, map_ok]
      rw [ih]

/-- The rows of one input row are those of its relationships. -/
theorem expandRow_eq_run (hop : op.optional = false) {row : E.Row} {source : Option (E.Value × Int64)}
    (hsource : expandSource E op params row = .ok source) (cache : DstCache E) :
    expandRow E G op row params cache =
      Memo.run (Hop.dst op) (dstIn G op params) (hopRows op params) (hopsOfRow E G op params row) cache := by
  have hs := hsource
  unfold expandSource at hs
  obtain ⟨v, hv, hs⟩ := bind_eq_ok.mp hs
  unfold expandRow hopsOfRow
  rw [hv, hsource, ok_bind]
  cases v with
  | none => cases hs
  | some srcVal =>
    simp only at hs ⊢
    rw [hop]
    cases hnull : srcVal.isNull with
    | true =>
      rw [hnull] at hs
      cases hs
      rfl
    | false =>
      rw [hnull] at hs
      cases hid : srcVal.nodeId with
      | none =>
        rw [hid] at hs
        cases hs
        rfl
      | some nodeId =>
        rw [hid] at hs
        cases hs
        simp only [Bool.false_eq_true, ↓reduceIte, Bool.false_and, expandEdges_eq_run]
        change _ = Memo.run (Hop.dst op) (dstIn G op params) (hopRows op params)
          ((followTypes G op.relTypes nodeId op.direction).map fun e => ⟨row, srcVal, nodeId, e⟩) cache
        cases Memo.run (Hop.dst op) (dstIn G op params) (hopRows op params)
          ((followTypes G op.relTypes nodeId op.direction).map fun e => ⟨row, srcVal, nodeId, e⟩) cache <;> rfl

/-- A row that is expanded has a source, if only a null one. -/
theorem expandRow_source {row : E.Row} {cache : DstCache E} {r : List E.Row × DstCache E}
    (h : expandRow E G op row params cache = .ok r) : ∃ source, expandSource E op params row = .ok source := by
  unfold expandRow at h
  obtain ⟨v, hv, h⟩ := bind_eq_ok.mp h
  unfold expandSource
  rw [hv]
  cases v with
  | none => cases h
  | some srcVal => exact ⟨_, rfl⟩

theorem expandRows_sources {rows : List E.Row} {cache : DstCache E} {outs : List E.Row}
    (h : expandRows E G op params rows cache = .ok outs) :
    ∀ row ∈ rows, ∃ source, expandSource E op params row = .ok source := by
  induction rows generalizing cache outs with
  | nil => exact fun _ hrow => absurd hrow List.not_mem_nil
  | cons row rows ih =>
    obtain ⟨r, hrow, h⟩ := bind_eq_ok.mp h
    obtain ⟨outs', hrest, -⟩ := bind_eq_ok.mp h
    exact List.forall_mem_cons.mpr ⟨expandRow_source hrow, ih hrest⟩

/-- The rows of a list of input rows are those of their relationships. -/
theorem expandRows_eq_run (hop : op.optional = false) {rows : List E.Row}
    (hsources : ∀ row ∈ rows, ∃ source, expandSource E op params row = .ok source) (cache : DstCache E) :
    expandRows E G op params rows cache = Prod.fst <$>
      Memo.run (Hop.dst op) (dstIn G op params) (hopRows op params) (hopsOf E G op params rows) cache := by
  induction rows generalizing cache with
  | nil => rfl
  | cons row rows ih =>
    obtain ⟨⟨source, hsource⟩, hrest⟩ := List.forall_mem_cons.mp hsources
    have hhops : hopsOf E G op params (row :: rows) = hopsOfRow E G op params row ++ hopsOf E G op params rows := rfl
    rw [expandRows, expandRow_eq_run hop hsource, hhops]
    cases hrun : Memo.run (Hop.dst op) (dstIn G op params) (hopRows op params) (hopsOfRow E G op params row) cache with
    | error e => rw [Memo.run_append_error _ hrun]; rfl
    | ok r =>
      rw [Memo.run_append _ hrun, ok_bind]
      simp only
      rw [ih hrest]
      cases Memo.run (Hop.dst op) (dstIn G op params) (hopRows op params) (hopsOf E G op params rows) r.2 <;> rfl

/-! ## What an answer says -/

/-- A destination that passes is the node itself, whatever row asks. -/
theorem dstIn_eq_some {h : Hop E} {v : E.Value} (hv : dstIn G op params h = .ok (some v)) :
    ∃ r, G.findNode (h.dst op) = some r ∧ v = r.value E (h.dst op) op.neededDstProps := by
  obtain ⟨⟨answer, cache⟩, hread, hsome⟩ := map_eq_ok.mp hv
  cases hsome
  unfold readDst at hread
  rw [List.lookup_nil] at hread
  cases hfind : G.findNode (h.dst op) with
  | none => rw [hfind] at hread; cases hread
  | some r =>
    rw [hfind] at hread
    simp only at hread
    split at hread
    · cases hread
    · obtain ⟨b, -, hread⟩ := bind_eq_ok.mp hread
      cases b with
      | false => cases hread
      | true =>
        cases hread
        exact ⟨r, rfl, rfl⟩

theorem getElem?_insertOpt_of_ne {row : E.Row} {var : Option String} {x : String} (v : E.Value) (h : var ≠ some x) :
    (insertOpt E row var v)[x]? = row[x]? := by
  cases var with
  | none => rfl
  | some y =>
    have hne : ¬y = x := fun heq => h (congrArg some heq)
    exact (Std.ExtTreeMap.getElem?_insert ..).trans (if_neg (by simpa using hne))

/-- The row of a relationship shows its destination, if the relationship has another variable. -/
theorem hopRows_dst (hnames : op.relVar ≠ some op.dstVar) {h : Hop E} {v : E.Value} {out : List E.Row}
    (hout : hopRows op params h v = .ok out) : ∀ r ∈ out, r[op.dstVar]? = some v := by
  intro r hr
  unfold hopRows at hout
  obtain ⟨pass, -, hout⟩ := bind_eq_ok.mp hout
  split at hout
  · cases hout; cases hr
  · split at hout
    · cases hout; cases hr
    · obtain ⟨bound, -, hout⟩ := bind_eq_ok.mp hout
      split at hout
      · cases hout; cases hr
      · cases hout
        rw [List.mem_singleton.mp hr, getElem?_insertOpt_of_ne _ hnames]
        exact Std.ExtTreeMap.getElem?_insert_self

end PgEddy
