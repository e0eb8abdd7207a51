import PgEddy.Executor

/-!
# One hop, without the names

An expansion finds relationships and destinations for a row, and puts them into the row under its variables. What it finds
depends on the row only through what it reads there (`HopView`), so it can be told apart from where the finds are put: two
expansions that read the same find the same.
-/

namespace PgEddy

variable (E : Engine) (G : Graph)

/-- What an expansion reads in a row. -/
structure HopView where
  src : Exec (Option E.Value)
  dstTest : E.Value → Exec Bool
  relTest : E.Value → Exec Bool
  existingRel : Option E.Value
  existingDst : Exec (Option E.Value)

/-- The part of an expansion that names no variable. -/
structure HopShape where
  relTypes : List String
  direction : RelDirection
  dstLabels : List String
  neededDstProps : Option (List String)

def Expand.shape (op : Expand) : HopShape := ⟨op.relTypes, op.direction, op.dstLabels, op.neededDstProps⟩

def hopView (op : Expand) (params : Params) (row : E.Row) : HopView E where
  src := lookupVar E row params op.srcVar
  dstTest val := propsMatch E val (.ok row) params op.dstProps
  relTest val := propsMatch E val (.ok row) params op.relProps
  existingRel := op.relVar.bind fun rv => row[rv]?
  existingDst := boundDst E row params op.dstVar

/-- A relationship that matches and its destination. -/
structure Hit where
  edge : RelRecord
  dst : E.Value

/-- What an expansion finds for a row. -/
inductive RowHits where
  | nullSrc
  | notNode
  | hits (src : E.Value) (hits : List (Hit E))

namespace HopAux

variable {E}

def readDst (s : HopShape) (v : HopView E) (nodeId : Int64) (cache : DstCache E) : Exec (Option E.Value × DstCache E) :=
  match cache.lookup nodeId with
  | some cached => .ok (cached, cache)
  | none =>
    match G.findNode nodeId with
    | none => .ok (none, (nodeId, none) :: cache)
    | some r =>
      if !s.dstLabels.all fun l => r.labels.contains l then .ok (none, (nodeId, none) :: cache)
      else do
        let val := r.value E nodeId s.neededDstProps
        if ← v.dstTest val then return (some val, (nodeId, some val) :: cache)
        else return (none, (nodeId, none) :: cache)

def edgeHit (s : HopShape) (v : HopView E) (nodeId : Int64) (edge : RelRecord) (cache : DstCache E) :
    Exec (Option (Hit E) × DstCache E) := do
  let (dst, cache) ← readDst G s v (edge.other nodeId s.direction) cache
  match dst with
  | none => return (none, cache)
  | some dstVal =>
    if !(← v.relTest (edge.value E)) then return (none, cache)
    else if !v.existingRel.all fun existing => existing.isNull || existing.edgeId = some edge.edgeId then return (none, cache)
    else if !agreesDst E (← v.existingDst) dstVal then return (none, cache)
    else return (some ⟨edge, dstVal⟩, cache)

def edgeHits (s : HopShape) (v : HopView E) (nodeId : Int64) :
    List RelRecord → DstCache E → Exec (List (Hit E) × DstCache E)
  | [], cache => .ok ([], cache)
  | edge :: edges, cache => do
    let (out, cache) ← edgeHit G s v nodeId edge cache
    let (outs, cache) ← edgeHits s v nodeId edges cache
    return (out.toList ++ outs, cache)

end HopAux

open HopAux

variable {E}

/-- What an expansion finds for a row. The name is that of the source, for the error. -/
def rowHits (srcVar : String) (s : HopShape) (v : HopView E) (cache : DstCache E) : Exec (RowHits E × DstCache E) := do
  match ← v.src with
  | none => .error (.error ("unbound variable: " ++ srcVar))
  | some srcVal =>
    if srcVal.isNull then return (.nullSrc, cache)
    else
      match srcVal.nodeId with
      | none => return (.notNode, cache)
      | some nodeId => do
        let (hits, cache) ← edgeHits G s v nodeId (followTypes G s.relTypes nodeId s.direction) cache
        return (.hits srcVal hits, cache)

/-- What an expansion finds for its rows in turn. -/
def allHits (srcVar : String) (s : HopShape) : List (HopView E) → DstCache E → Exec (List (RowHits E))
  | [], _ => .ok []
  | v :: vs, cache => do
    let (h, cache) ← rowHits G srcVar s v cache
    return h :: (← allHits srcVar s vs cache)

/-- The row of a find. -/
def hitRow (op : Expand) (row : E.Row) (src : E.Value) (hit : Hit E) : E.Row :=
  insertOpt E ((orInsert E row op.srcVar src).insert op.dstVar hit.dst) op.relVar (hit.edge.value E)

/-- The rows of what an expansion finds for a row. -/
def hitRows (op : Expand) (row : E.Row) : RowHits E → List E.Row
  | .nullSrc => if op.optional then [nullDst E op row] else []
  | .notNode => []
  | .hits src hits => if op.optional && hits.isEmpty then [nullNew E op row] else hits.map (hitRow op row src)

namespace HopAux

theorem readDst_eq (op : Expand) (row : E.Row) (params : Params) (nodeId : Int64) (cache : DstCache E) :
    PgEddy.readDst E G op row params nodeId cache = readDst G op.shape (hopView E op params row) nodeId cache := rfl

theorem agreesRel_eq (op : Expand) (row : E.Row) (params : Params) (edge : RelRecord) :
    agreesRel E op row edge = (hopView E op params row).existingRel.all fun existing =>
      existing.isNull || existing.edgeId = some edge.edgeId := by
  unfold agreesRel hopView
  cases op.relVar.bind fun rv => row[rv]? <;> rfl

theorem expandEdge_eq (op : Expand) (row : E.Row) (srcVal : E.Value) (params : Params) (nodeId : Int64)
    (edge : RelRecord) (cache : DstCache E) :
    expandEdge E G op row srcVal params nodeId edge cache = do
      let (hit, cache) ← edgeHit G op.shape (hopView E op params row) nodeId edge cache
      return (hit.map (hitRow op row srcVal), cache) := by
  unfold expandEdge edgeHit
  rw [readDst_eq, agreesRel_eq op row params, show op.shape.direction = op.direction from rfl]
  cases HopAux.readDst G op.shape (hopView E op params row) (edge.other nodeId op.direction) cache with
  | error f => rfl
  | ok r =>
    obtain ⟨dst, cache⟩ := r
    cases dst with
    | none => rfl
    | some dstVal =>
      change ((hopView E op params row).relTest (edge.value E) >>= fun passes =>
        if !passes then pure (none, cache)
        else if !(hopView E op params row).existingRel.all _ then pure (none, cache)
        else (hopView E op params row).existingDst >>= fun existing =>
          if !agreesDst E existing dstVal then pure (none, cache)
          else pure (some (hitRow op row srcVal ⟨edge, dstVal⟩), cache)) =
        (((hopView E op params row).relTest (edge.value E) >>= fun passes =>
          if !passes then pure (none, cache)
          else if !(hopView E op params row).existingRel.all _ then pure (none, cache)
          else (hopView E op params row).existingDst >>= fun existing =>
            if !agreesDst E existing dstVal then pure (none, cache)
            else pure (some ⟨edge, dstVal⟩, cache)) >>= fun r => pure (r.1.map (hitRow op row srcVal), r.2))
      rw [bind_assoc]
      refine bind_congr fun passes => ?_
      rw [apply_ite (· >>= _), pure_bind, apply_ite (· >>= _), pure_bind, bind_assoc]
      refine congrArg _ (congrArg _ (bind_congr fun existing => ?_))
      rw [apply_ite (· >>= _), pure_bind, pure_bind]
      rfl

theorem expandEdges_eq (op : Expand) (row : E.Row) (srcVal : E.Value) (params : Params) (nodeId : Int64)
    (edges : List RelRecord) (cache : DstCache E) :
    expandEdges E G op row srcVal params nodeId edges cache = do
      let (hits, cache) ← edgeHits G op.shape (hopView E op params row) nodeId edges cache
      return (hits.map (hitRow op row srcVal), cache) := by
  induction edges generalizing cache with
  | nil => rfl
  | cons edge edges ih =>
    unfold expandEdges edgeHits
    rw [expandEdge_eq, bind_assoc, bind_assoc]
    refine bind_congr fun ⟨out, cache⟩ => ?_
    dsimp only
    rw [pure_bind]
    dsimp only
    rw [ih, bind_assoc, bind_assoc]
    refine bind_congr fun rest => ?_
    rw [pure_bind, pure_bind]
    cases out <;> rfl

theorem expandRow_eq (op : Expand) (row : E.Row) (params : Params) (cache : DstCache E) :
    expandRow E G op row params cache = do
      let (h, cache) ← rowHits G op.srcVar op.shape (hopView E op params row) cache
      return (hitRows op row h, cache) := by
  unfold expandRow rowHits
  rw [bind_assoc]
  refine bind_congr fun src => ?_
  cases src with
  | none => rfl
  | some srcVal =>
    cases hn : srcVal.isNull with
    | true => simp only [hn, ↓reduceIte, pure_bind, hitRows]
    | false =>
      simp only [hn, Bool.false_eq_true, ↓reduceIte]
      cases srcVal.nodeId with
      | none => rfl
      | some nodeId =>
        simp only
        rw [expandEdges_eq, bind_assoc, bind_assoc]
        refine bind_congr fun r => ?_
        simp only [pure_bind, hitRows, List.isEmpty_map]

end HopAux

theorem expandRows_eq (op : Expand) (params : Params) (rows : List E.Row) (cache : DstCache E) :
    expandRows E G op params rows cache = do
      let hs ← allHits G op.srcVar op.shape (rows.map (hopView E op params)) cache
      return (List.zipWith (hitRows op) rows hs).flatten := by
  induction rows generalizing cache with
  | nil => rfl
  | cons row rows ih =>
    simp only [expandRows, List.map_cons, allHits]
    rw [expandRow_eq, bind_assoc, bind_assoc]
    refine bind_congr fun ⟨h, cache⟩ => ?_
    dsimp only
    rw [pure_bind]
    dsimp only
    rw [ih, bind_assoc, bind_assoc]
    refine bind_congr fun hs => ?_
    rw [pure_bind, pure_bind]
    rfl

/-- One set of finds for each row. -/
theorem length_allHits {srcVar : String} {s : HopShape} {vs : List (HopView E)} {cache : DstCache E} {hs : List (RowHits E)}
    (h : allHits G srcVar s vs cache = .ok hs) : hs.length = vs.length := by
  induction vs generalizing cache hs with
  | nil =>
    cases h
    rfl
  | cons v vs ih =>
    unfold allHits at h
    cases hr : rowHits G srcVar s v cache with
    | error f => simp only [hr, bind, Except.bind, reduceCtorEq] at h
    | ok r =>
      simp only [hr, bind, Except.bind] at h
      cases hrest : allHits G srcVar s vs r.2 with
      | error f => simp only [hrest, reduceCtorEq] at h
      | ok hs' =>
        simp only [hrest, pure, Except.pure, Except.ok.injEq] at h
        rw [← h, List.length_cons, List.length_cons, ih hrest]

/-- An expansion that is not optional gives the rows of its finds. -/
theorem execExpand_eq {op : Expand} (hop : op.optional = false) (rows : List E.Row) (params : Params) :
    execExpand E G op rows params =
      if dstLabelUnsatisfiable G op then .ok []
      else do
        let hs ← allHits G op.srcVar op.shape (rows.map (hopView E op params)) []
        return (List.zipWith (hitRows op) rows hs).flatten := by
  unfold execExpand
  rw [expandRows_eq, hop]
  simp only [Bool.false_and, Bool.false_eq_true, ↓reduceIte, bind_pure]

end PgEddy
