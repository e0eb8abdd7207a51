import PgEddy.Lemmas.Destinations
import PgEddy.Lemmas.Rows
import PgEddy.Lemmas.Scans
import PgEddy.Lib.Bindings
import PgEddy.Traversal

/-!
# What matching does to the bindings of a row

The operators of a `MATCH` add bindings to their input rows. Each of them checks in its own way that a variable it sets is not
bound to something else already.
-/

namespace PgEddy

open RowAux Bindings Fallible

variable {E : Engine} {G : Graph}

/-! ## Kept bindings -/

/-- Two values are the same thing: equal, or the same node, or the same relationship. -/
inductive SameThing {ch : Chrono} : Value ch → Value ch → Prop
  | refl (v : Value ch) : SameThing v v
  | node {v w : Value ch} {nodeId : Int64} : v.nodeId = some nodeId → w.nodeId = some nodeId → SameThing v w
  | edge {v w : Value ch} {edgeId : Int64} : v.edgeId = some edgeId → w.edgeId = some edgeId → SameThing v w

/-- Every variable that the input row binds is bound to the same thing in an output row. -/
def KeepsRow (row out : E.Row) : Prop := Keeps SameThing row out

/-- The output rows are those of the input rows in turn. What an input row and its output rows satisfy is given. -/
def RowByRow (P : E.Row → List E.Row → Prop) (rows outs : List E.Row) : Prop :=
  ∃ parts, outs = parts.flatten ∧ List.Forall₂ P rows parts

variable (G)

/-! ## The conditions -/

/-- The variables that an expansion sets. -/
def Expand.targets (op : Expand) : List String := op.dstVar :: op.relVar.toList

/-- An expansion follows nothing from a row: no destination can have the labels, or the source is null. -/
def FollowsNothing (op : Expand) (row : E.Row) (params : Params) : Prop :=
  dstLabelUnsatisfiable G op = true ∨ lookupVar E row params op.srcVar = .ok (some .null)

/-- Nothing has matched: there are no rows, or only the row filled with nulls. -/
def MatchesNothing (op : Expand) (row : E.Row) (part : List E.Row) : Prop :=
  part = [] ∨ (op.optional = true ∧ part = [nullNew E op row])

/-- The condition under which an expansion keeps the bindings of a row. Where nothing is followed, an optional expansion sets its
variables to null, so they must not be bound to anything else. Else a variable that is bound to null matches nothing. -/
structure ExpandFits (op : Expand) (row : E.Row) (params : Params) (part : List E.Row) : Prop where
  filled : FollowsNothing G op row params → op.optional = true → ∀ x ∈ op.targets, ∀ v, row[x]? = some v → v = .null
  null : ¬ FollowsNothing G op row params → ∀ x ∈ op.targets, row[x]? = some .null → MatchesNothing op row part

/-- A walk that a row matches: it starts at the node of the row, leaves out the relationships bound elsewhere, is long enough and
ends in a visible node, the one that the destination is bound to if it is bound to a node. -/
def IsMatchedWalk (op : VarLengthExpand) (row : E.Row) (params : Params) (entry : BfsEntry) : Prop :=
  ∃ startId labels properties excluded dst,
    lookupVar E row params op.srcVar = .ok (some (.node startId labels properties)) ∧
    excludedEdgeIds E row params op.excludedRelVars = .ok excluded ∧ boundDst E row params op.dstVar = .ok dst ∧
    entry ∈ walksFrom G op excluded startId ∧ isLongEnough op entry = true ∧ (G.findNode entry.nodeId).isSome ∧
    ∀ nodeId, dst.bind Value.nodeId = some nodeId → nodeId = entry.nodeId

/-- The condition under which the row of a walk keeps the bindings of the input row. A destination must be bound to a node or not
at all. The variables of the relationships and of the path are set without being looked at, so if they are bound it must be to
this very walk. -/
structure WalkFits (op : VarLengthExpand) (row : E.Row) (entry : BfsEntry) : Prop where
  dst : op.relVar ≠ some op.dstVar → op.pathCarryVar ≠ some op.dstVar →
    ∀ v, row[op.dstVar]? = some v → v.nodeId.isSome
  rel : ∀ rv ∈ op.relVar, op.pathCarryVar ≠ some rv →
    ∀ v, row[rv]? = some v → v = buildRelListFromIds E G entry.pathEdgeIds
  carry : ∀ cv ∈ op.pathCarryVar,
    ∀ v, row[cv]? = some v → v = buildPathFromIds E G entry.pathNodeIds entry.pathEdgeIds op.direction

/-- The condition under which walks of variable length keep the bindings of a row. -/
structure WalksFit (op : VarLengthExpand) (row : E.Row) (params : Params) : Prop where
  /-- From null or nothing an optional walk sets its variables to null. -/
  filled : (lookupVar E row params op.srcVar = .ok none ∨ lookupVar E row params op.srcVar = .ok (some .null)) →
    op.optional = true → ∀ x ∈ op.dstVar :: op.relVar.toList, ∀ v, row[x]? = some v → v = .null
  walks : ∀ entry, IsMatchedWalk G op row params entry → WalkFits G op row entry
  /-- Without a walk an optional one sets its variables to null, but not a destination that is bound to a node. -/
  noWalk : (∃ startId labels properties, lookupVar E row params op.srcVar = .ok (some (.node startId labels properties))) →
    op.optional = true → (∀ entry, ¬ IsMatchedWalk G op row params entry) →
    (∀ v, row[op.dstVar]? = some v → v = .null ∨ v.nodeId.isSome) ∧
      ∀ x ∈ op.relVar.toList ++ op.pathCarryVar.toList, ∀ v, row[x]? = some v → v = .null

variable {G}

theorem SameThing.null_left {ch : Chrono} {w : Value ch} : SameThing .null w ↔ w = .null := by
  constructor
  · intro h
    cases h with
    | refl => rfl
    | node h _ => cases h
    | edge h _ => cases h
  · rintro rfl
    exact .refl _

/-- A value that is no node and no relationship is the same only as itself. -/
theorem sameThing_iff_eq {ch : Chrono} {v w : Value ch} (hnode : w.nodeId = none) (hedge : w.edgeId = none) :
    SameThing v w ↔ v = w := by
  constructor
  · intro h
    cases h with
    | refl => rfl
    | node _ h => cases hnode.symm.trans h
    | edge _ h => cases hedge.symm.trans h
  · rintro rfl
    exact .refl _

theorem isNull_eq_false {v : E.Value} (h : v ≠ .null) : v.isNull = false := by
  cases v <;> first | rfl | exact absurd rfl h

/-! ## One hop -/

theorem keepsRow_self (row : E.Row) : KeepsRow row row := keepsOn_self .refl _ _

theorem keepsOn_insertOpt {names : String → Prop} {row row' : E.Row} {var : Option String} {w : E.Value} :
    KeepsOn SameThing names row (insertOpt E row' var w) ↔
      KeepsOn SameThing (fun x => names x ∧ var ≠ some x) row row' ∧
        ∀ k ∈ var, names k → ∀ v, row[k]? = some v → SameThing v w := by
  cases var with
  | none => simp [insertOpt]
  | some k =>
    have hnames : ∀ x, (some k ≠ some x) = (x ≠ k) := fun x => by simp [eq_comm]
    simp only [insertOpt, Option.elim_some, keepsOn_insert, hnames, Option.mem_def, Option.some.injEq, forall_eq']

/-- Setting the destination and the relationship of a row keeps its bindings if both were bound to the same, or not at all. Where
both are one variable, the relationship stays. -/
theorem keepsRow_targets {dstVar : String} {relVar : Option String} {row row' : E.Row} {dstVal relVal : E.Value}
    (hrow : KeepsOn SameThing (fun _ => True) row row') :
    KeepsRow row (insertOpt E (row'.insert dstVar dstVal) relVar relVal) ↔
      (relVar ≠ some dstVar → ∀ v, row[dstVar]? = some v → SameThing v dstVal) ∧
        ∀ rv ∈ relVar, ∀ v, row[rv]? = some v → SameThing v relVal := by
  have hany : ∀ names : String → Prop, KeepsOn SameThing names row row' := fun _ x _ v hv => hrow x trivial v hv
  unfold KeepsRow Keeps
  simp only [keepsOn_insertOpt, keepsOn_insert, hany, true_and, true_imp_iff]

theorem boundDst_of_bound {row : E.Row} {params : Params} {x : String} {v : E.Value} (h : row[x]? = some v) :
    boundDst E row params x = .ok (some v) := by
  unfold boundDst
  rw [h]

/-- The destinations that are remembered are nodes. -/
def NodesOnly (cache : DstCache E) : Prop := ∀ e ∈ cache, ∀ v, e.2 = some v → v.nodeId.isSome

theorem NodesOnly.cons {cache : DstCache E} (h : NodesOnly cache) (nodeId : Int64) {answer : Option E.Value}
    (ha : ∀ v, answer = some v → v.nodeId.isSome) : NodesOnly ((nodeId, answer) :: cache) := by
  intro e he v hv
  rcases List.mem_cons.mp he with rfl | he
  · exact ha v hv
  · exact h e he v hv

theorem readDst_nodes {op : Expand} {row : E.Row} {params : Params} {nodeId : Int64} {cache cache' : DstCache E}
    {answer : Option E.Value} (hcache : NodesOnly cache) (h : readDst E G op row params nodeId cache = .ok (answer, cache')) :
    NodesOnly cache' ∧ ∀ v, answer = some v → v.nodeId.isSome := by
  unfold readDst at h
  split at h
  · rename_i cached hfound
    cases h
    obtain ⟨before, after, heq, -⟩ := List.lookup_eq_some_iff.mp hfound
    exact ⟨hcache, fun v hv => hcache (nodeId, answer) (heq ▸ List.mem_append_right _ (List.mem_cons_self ..)) v hv⟩
  · split at h
    · cases h
      exact ⟨hcache.cons _ (by simp), by simp⟩
    · rename_i r hr
      split at h
      · cases h
        exact ⟨hcache.cons _ (by simp), by simp⟩
      · obtain ⟨passes, -, h⟩ := bind_eq_ok.mp h
        cases passes with
        | false =>
          cases h
          exact ⟨hcache.cons _ (by simp), by simp⟩
        | true =>
          cases h
          have hnode : ∀ v, some (r.value E nodeId op.neededDstProps) = some v → v.nodeId.isSome := by
            rintro v ⟨⟩
            rfl
          exact ⟨hcache.cons _ hnode, hnode⟩

/-- The row of a relationship that matches keeps the bindings of the input row unless one of its variables is bound to null. -/
theorem keepsRow_expandEdge {op : Expand} {row : E.Row} {srcVal : E.Value} {params : Params} {nodeId : Int64}
    {edge : RelRecord} {cache cache' : DstCache E} {answer : Option E.Row} (hcache : NodesOnly cache)
    (h : expandEdge E G op row srcVal params nodeId edge cache = .ok (answer, cache')) :
    NodesOnly cache' ∧ ∀ out, answer = some out → (KeepsRow row out ↔ ∀ x ∈ op.targets, row[x]? ≠ some .null) := by
  unfold expandEdge at h
  obtain ⟨⟨dst, cache₁⟩, hread, h⟩ := bind_eq_ok.mp h
  obtain ⟨hcache₁, hnode⟩ := readDst_nodes hcache hread
  cases dst with
  | none =>
    cases h
    exact ⟨hcache₁, by simp⟩
  | some dstVal =>
    obtain ⟨relOk, hrel, h⟩ := bind_eq_ok.mp h
    cases relOk with
    | false =>
      cases h
      exact ⟨hcache₁, by simp⟩
    | true =>
      simp only [Bool.not_true, Bool.false_eq_true, ↓reduceIte] at h
      split at h
      · cases h
        exact ⟨hcache₁, by simp⟩
      · rename_i hagreesRel
        obtain ⟨bound, hbound, h⟩ := bind_eq_ok.mp h
        split at h
        · cases h
          exact ⟨hcache₁, by simp⟩
        · rename_i hagreesDst
          cases h
          refine ⟨hcache₁, ?_⟩
          rintro out ⟨⟩
          -- a bound variable is null or the thing that is found
          have hdst : ∀ v, row[op.dstVar]? = some v → v ≠ .null → SameThing v dstVal := by
            intro v hv hne
            rw [boundDst_of_bound hv] at hbound
            cases hbound
            obtain ⟨n, hn⟩ := Option.isSome_iff_exists.mp (hnode dstVal rfl)
            have hid : v.nodeId = dstVal.nodeId := by simpa [agreesDst, isNull_eq_false hne] using hagreesDst
            exact .node (hid.trans hn) hn
          have hrel' : ∀ rv ∈ op.relVar, ∀ v, row[rv]? = some v → v ≠ .null → SameThing v (edge.value E) := by
            intro rv hrv v hv hne
            have hid : v.edgeId = some edge.edgeId := by
              simpa [agreesRel, Option.mem_def.mp hrv, hv, isNull_eq_false hne] using hagreesRel
            exact .edge hid rfl
          rw [show orInsert E row op.srcVar srcVal = row.insertIfNew op.srcVar srcVal from rfl,
            keepsRow_targets (keepsOn_insertIfNew .refl)]
          constructor
          · rintro ⟨hdstKept, hrelKept⟩ x hx hnull
            have hrelNot : ∀ rv ∈ op.relVar, row[rv]? ≠ some .null := fun rv hrv hnull =>
              nomatch SameThing.null_left.mp (hrelKept rv hrv .null hnull)
            rcases List.mem_cons.mp hx with rfl | hx
            · by_cases hname : op.relVar = some op.dstVar
              · exact hrelNot _ hname hnull
              · have hdstNull := SameThing.null_left.mp (hdstKept hname .null hnull)
                have := hnode dstVal rfl
                rw [hdstNull] at this
                cases this
            · exact hrelNot x (Option.mem_toList.mp hx) hnull
          · intro hnull
            refine ⟨fun _ v hv => hdst v hv ?_, fun rv hrv v hv => hrel' rv hrv v hv ?_⟩
            · rintro rfl
              exact hnull _ (List.mem_cons_self ..) hv
            · rintro rfl
              exact hnull rv (List.mem_cons_of_mem _ (Option.mem_toList.mpr hrv)) hv

theorem keepsRow_expandEdges {op : Expand} {row : E.Row} {srcVal : E.Value} {params : Params} {nodeId : Int64}
    {edges : List RelRecord} {cache cache' : DstCache E} {outs : List E.Row} (hcache : NodesOnly cache)
    (h : expandEdges E G op row srcVal params nodeId edges cache = .ok (outs, cache')) :
    NodesOnly cache' ∧ ∀ out ∈ outs, (KeepsRow row out ↔ ∀ x ∈ op.targets, row[x]? ≠ some .null) := by
  induction edges generalizing cache outs with
  | nil =>
    cases h
    exact ⟨hcache, by simp⟩
  | cons edge edges ih =>
    unfold expandEdges at h
    obtain ⟨⟨answer, cache₁⟩, hedge, h⟩ := bind_eq_ok.mp h
    obtain ⟨⟨rest, cache₂⟩, hrest, h⟩ := bind_eq_ok.mp h
    cases h
    obtain ⟨hcache₁, hanswer⟩ := keepsRow_expandEdge hcache hedge
    obtain ⟨hcache₂, hrest⟩ := ih hcache₁ hrest
    refine ⟨hcache₂, fun out hout => ?_⟩
    rcases List.mem_append.mp hout with hout | hout
    · exact hanswer out (Option.mem_toList.mp hout)
    · exact hrest out hout

theorem keepsRow_nullNew (op : Expand) (row : E.Row) : KeepsRow row (nullNew E op row) := by
  have hdst : KeepsRow row (if row[op.dstVar]?.isSome then row else row.insert op.dstVar .null) := by
    split
    · exact keepsRow_self row
    · rename_i hfree
      exact keepsOn_insert.mpr ⟨keepsOn_self .refl _ _, fun _ v hv => absurd (hv ▸ rfl) hfree⟩
  unfold nullNew
  cases op.relVar with
  | none => exact hdst
  | some rv =>
    simp only
    split
    · exact hdst
    · rename_i hfree
      exact keepsOn_insert.mpr ⟨fun x _ => hdst x trivial, fun _ v hv => absurd (hv ▸ rfl) hfree⟩

/-- The row filled with nulls keeps the bindings of the input row if none of its variables is bound to anything but null. -/
theorem keepsRow_fill (dstVar : String) (relVar : Option String) (row : E.Row) :
    KeepsRow row (insertOpt E (row.insert dstVar .null) relVar .null) ↔
      ∀ x ∈ dstVar :: relVar.toList, ∀ v, row[x]? = some v → v = .null := by
  rw [keepsRow_targets (keepsRow_self row)]
  simp only [sameThing_iff_eq (w := (.null : E.Value)) rfl rfl]
  constructor
  · rintro ⟨hdst, hrel⟩ x hx
    rcases List.mem_cons.mp hx with rfl | hx
    · by_cases hname : relVar = some x
      · exact hrel _ hname
      · exact hdst hname
    · exact hrel x (Option.mem_toList.mp hx)
  · intro h
    exact ⟨fun _ => h _ (List.mem_cons_self ..), fun rv hrv => h rv (List.mem_cons_of_mem _ (Option.mem_toList.mpr hrv))⟩

theorem keepsRow_expandRow {op : Expand} (hlabel : dstLabelUnsatisfiable G op = false) {row : E.Row} {params : Params}
    {cache cache' : DstCache E} {part : List E.Row} (hcache : NodesOnly cache)
    (h : expandRow E G op row params cache = .ok (part, cache')) :
    NodesOnly cache' ∧ ((∀ out ∈ part, KeepsRow row out) ↔ ExpandFits G op row params part) := by
  unfold expandRow at h
  obtain ⟨src, hsrc, h⟩ := bind_eq_ok.mp h
  have hfollows : FollowsNothing G op row params ↔ src = some .null := by
    unfold FollowsNothing
    rw [hlabel, hsrc]
    simp
  cases src with
  | none => cases h
  | some srcVal =>
    simp only at h
    split at h
    · rename_i hnull
      obtain rfl : srcVal = .null := by
        by_contra hne
        rw [isNull_eq_false hne] at hnull
        cases hnull
      cases h
      refine ⟨hcache, ?_⟩
      have hnothing : FollowsNothing G op row params := hfollows.mpr rfl
      cases hop : op.optional with
      | false => simpa using ⟨fun _ hopt => by simp [hop] at hopt, fun hnot => absurd hnothing hnot⟩
      | true =>
        simp only [↓reduceIte, List.mem_singleton, forall_eq]
        rw [nullDst, keepsRow_fill]
        exact ⟨fun h => ⟨fun _ _ => h, fun hnot => absurd hnothing hnot⟩, fun h => h.filled hnothing hop⟩
    · rename_i hnull
      have hsome : ¬ FollowsNothing G op row params := by
        rw [hfollows]
        rintro ⟨⟩
        exact hnull rfl
      have hfits : ExpandFits G op row params part ↔ ∀ x ∈ op.targets, row[x]? = some .null → MatchesNothing op row part :=
        ⟨fun h => h.null hsome, fun h => ⟨fun hnothing => absurd hnothing hsome, fun _ => h⟩⟩
      split at h
      · cases h
        exact ⟨hcache, by simp [hfits, MatchesNothing]⟩
      · obtain ⟨⟨outs, cache₁⟩, hedges, h⟩ := bind_eq_ok.mp h
        cases h
        obtain ⟨hcache₁, houts⟩ := keepsRow_expandEdges hcache hedges
        refine ⟨hcache₁, Iff.trans ?_ hfits.symm⟩
        dsimp only
        split
        · rename_i hfill
          rw [Bool.and_eq_true] at hfill
          simp only [List.mem_singleton, forall_eq]
          exact ⟨fun _ _ _ _ => .inr ⟨hfill.1, rfl⟩, fun _ => keepsRow_nullNew op row⟩
        · constructor
          · intro hkept x hx hxnull
            cases outs with
            | nil => exact .inl rfl
            | cons out outs =>
              exact absurd hxnull ((houts out (List.mem_cons_self ..)).mp (hkept out (List.mem_cons_self ..)) x hx)
          · intro hmatch out hout
            by_cases hnulls : ∃ x ∈ op.targets, row[x]? = some .null
            · obtain ⟨x, hx, hxnull⟩ := hnulls
              rcases hmatch x hx hxnull with hnil | ⟨-, hnil⟩
              · exact absurd (hnil ▸ hout) List.not_mem_nil
              · rw [hnil, List.mem_singleton] at hout
                exact hout ▸ keepsRow_nullNew op row
            · push_neg at hnulls
              exact (houts out hout).mpr hnulls

theorem keepsRow_expandRows {op : Expand} (hlabel : dstLabelUnsatisfiable G op = false) {params : Params}
    {rows outs : List E.Row} {cache : DstCache E} (hcache : NodesOnly cache)
    (h : expandRows E G op params rows cache = .ok outs) :
    RowByRow (fun row part => (∀ out ∈ part, KeepsRow row out) ↔ ExpandFits G op row params part) rows outs := by
  induction rows generalizing cache outs with
  | nil =>
    cases h
    exact ⟨[], rfl, .nil⟩
  | cons row rows ih =>
    unfold expandRows at h
    obtain ⟨⟨part, cache₁⟩, hrow, h⟩ := bind_eq_ok.mp h
    obtain ⟨rest, hrest, h⟩ := bind_eq_ok.mp h
    cases h
    obtain ⟨hcache₁, hpart⟩ := keepsRow_expandRow hlabel hcache hrow
    obtain ⟨parts, rfl, hparts⟩ := ih hcache₁ hrest
    exact ⟨part :: parts, rfl, .cons hpart hparts⟩

/-- The row that an optional expansion without any rows stands in with binds nothing but the variables of the expansion, and
these to null. -/
theorem keepsRow_nullExpandRow (op : Expand) (row : E.Row) :
    KeepsRow row (nullExpandRow E op) ↔ ∀ x v, row[x]? = some v → x ∈ op.srcVar :: op.targets ∧ v = .null := by
  have hget : ∀ x, (nullExpandRow E op)[x]? = if x ∈ op.srcVar :: op.targets then some .null else none := by
    intro x
    unfold nullExpandRow Expand.targets
    simp only [get_insertOpt, get_insert, Std.ExtTreeMap.getElem?_empty, List.mem_cons, Option.mem_toList, Option.mem_def]
    grind
  constructor
  · intro h x v hv
    obtain ⟨w, hw, hsame⟩ := h x trivial v hv
    rw [hget] at hw
    split at hw
    · rename_i hx
      cases hw
      exact ⟨hx, (sameThing_iff_eq rfl rfl).mp hsame⟩
    · cases hw
  · intro h x _ v hv
    obtain ⟨hx, rfl⟩ := h x v hv
    exact ⟨.null, by rw [hget, if_pos hx], .refl _⟩

/-! ## Walks of variable length -/

theorem keepsRow_walkRow {op : VarLengthExpand} {row : E.Row} {params : Params} {srcVal : E.Value} {entry : BfsEntry}
    {r : NodeEntry} {dst : Option E.Value} (hdst : boundDst E row params op.dstVar = .ok dst)
    (hexpected : ∀ nodeId, dst.bind Value.nodeId = some nodeId → nodeId = entry.nodeId) :
    KeepsRow row (walkRow E G op row srcVal (r.value E entry.nodeId none) entry) ↔ WalkFits G op row entry := by
  have hany : ∀ names : String → Prop, KeepsOn SameThing names row (orInsert E row op.srcVar srcVal) :=
    fun names => keepsOn_insertIfNew .refl
  have hnode : ∀ v, row[op.dstVar]? = some v → (SameThing v (r.value E entry.nodeId none) ↔ v.nodeId.isSome) := by
    intro v hv
    rw [boundDst_of_bound hv] at hdst
    cases hdst
    constructor
    · intro hsame
      cases hsame with
      | refl => rfl
      | node h _ => rw [h]; rfl
      | edge _ h => cases h
    · intro hsome
      obtain ⟨nodeId, hid⟩ := Option.isSome_iff_exists.mp hsome
      cases hexpected nodeId hid
      exact .node hid rfl
  have hlist : ∀ v, SameThing v (buildRelListFromIds E G entry.pathEdgeIds) ↔ v = _ := fun v => sameThing_iff_eq rfl rfl
  have hpath : ∀ v, SameThing v (buildPathFromIds E G entry.pathNodeIds entry.pathEdgeIds op.direction) ↔ v = _ :=
    fun v => sameThing_iff_eq rfl rfl
  unfold walkRow KeepsRow Keeps
  simp only [keepsOn_insertOpt, keepsOn_insert, hany, true_and, true_imp_iff, hlist, hpath]
  constructor
  · rintro ⟨⟨hd, hr⟩, hc⟩
    exact ⟨fun hrel hcarry v hv => (hnode v hv).mp (hd ⟨hcarry, hrel⟩ v hv), hr, hc⟩
  · rintro ⟨hd, hr, hc⟩
    exact ⟨⟨fun hne v hv => (hnode v hv).mpr (hd hne.2 hne.1 v hv), hr⟩, hc⟩

theorem keepsRow_nullWalk {op : VarLengthExpand} {row : E.Row} {params : Params} {dst : Option E.Value}
    (hdst : boundDst E row params op.dstVar = .ok dst) :
    KeepsRow row (nullWalk E op row (dst.bind Value.nodeId)) ↔
      (∀ v, row[op.dstVar]? = some v → v = .null ∨ v.nodeId.isSome) ∧
        ∀ x ∈ op.relVar.toList ++ op.pathCarryVar.toList, ∀ v, row[x]? = some v → v = .null := by
  have hbound : ∀ v, row[op.dstVar]? = some v → dst = some v := by
    intro v hv
    rw [boundDst_of_bound hv] at hdst
    exact (Except.ok.inj hdst).symm
  have hnull : ∀ v : E.Value, SameThing v .null ↔ v = .null := fun v => sameThing_iff_eq rfl rfl
  have hself : ∀ names : String → Prop, KeepsOn SameThing names row row := fun names => keepsOn_self .refl _ _
  have hlists : (∀ x ∈ op.relVar.toList ++ op.pathCarryVar.toList, ∀ v, row[x]? = some v → v = .null) ↔
      (∀ rv ∈ op.relVar, ∀ v, row[rv]? = some v → v = .null) ∧ ∀ cv ∈ op.pathCarryVar, ∀ v, row[cv]? = some v → v = .null := by
    simp only [List.forall_mem_append, Option.mem_toList, Option.mem_def]
  have hrel : (∀ cv ∈ op.pathCarryVar, ∀ v, row[cv]? = some v → v = .null) →
      ((∀ rv ∈ op.relVar, op.pathCarryVar ≠ some rv → ∀ v, row[rv]? = some v → v = .null) ↔
        ∀ rv ∈ op.relVar, ∀ v, row[rv]? = some v → v = .null) := by
    intro hcarry
    refine ⟨fun h rv hrv => ?_, fun h rv hrv _ => h rv hrv⟩
    by_cases hname : op.pathCarryVar = some rv
    · exact hcarry rv hname
    · exact h rv hrv hname
  unfold nullWalk KeepsRow Keeps
  rw [hlists]
  cases hid : dst.bind Value.nodeId with
  | none =>
    -- the destination is no node, and is set to null too
    simp only [Option.isNone_none, ↓reduceIte, keepsOn_insertOpt, keepsOn_insert, hself, true_and, true_imp_iff, hnull]
    have hno : ∀ v, row[op.dstVar]? = some v → ¬ v.nodeId.isSome := by
      intro v hv hsome
      rw [hbound v hv, Option.bind_some] at hid
      rw [hid] at hsome
      cases hsome
    constructor
    · rintro ⟨⟨hd, hr⟩, hc⟩
      have hr := (hrel hc).mp hr
      refine ⟨fun v hv => .inl ?_, hr, hc⟩
      by_cases hcname : op.pathCarryVar = some op.dstVar
      · exact hc _ hcname v hv
      · by_cases hrname : op.relVar = some op.dstVar
        · exact hr _ hrname v hv
        · exact hd ⟨hcname, hrname⟩ v hv
    · rintro ⟨hd, hr, hc⟩
      exact ⟨⟨fun _ v hv => (hd v hv).resolve_right (hno v hv), (hrel hc).mpr hr⟩, hc⟩
  | some nodeId =>
    -- the destination is a node, and stays
    simp only [Option.isNone_some, Bool.false_eq_true, ↓reduceIte, keepsOn_insertOpt, hself, true_and, true_imp_iff, hnull]
    have hnode : ∀ v, row[op.dstVar]? = some v → v = .null ∨ v.nodeId.isSome := by
      intro v hv
      rw [hbound v hv, Option.bind_some] at hid
      exact .inr (hid ▸ rfl)
    constructor
    · rintro ⟨hr, hc⟩
      exact ⟨hnode, (hrel hc).mp hr, hc⟩
    · rintro ⟨-, hr, hc⟩
      exact ⟨(hrel hc).mpr hr, hc⟩

theorem keepsRow_nullWalkSrc (op : VarLengthExpand) (row : E.Row) :
    (∀ out ∈ nullWalkSrc E op row, KeepsRow row out) ↔
      (op.optional = true → ∀ x ∈ op.dstVar :: op.relVar.toList, ∀ v, row[x]? = some v → v = .null) := by
  unfold nullWalkSrc
  split
  · rename_i hop
    simp only [List.mem_singleton, forall_eq, hop, true_imp_iff]
    exact keepsRow_fill op.dstVar op.relVar row
  · rename_i hop
    simp [hop]

/-- The rows of the search are those of the matched walks. -/
theorem mem_emitted {op : VarLengthExpand} {row out : E.Row} {params : Params} {startId : Int64} {labels : List String}
    {properties : List (String × Json)} {excluded : List Int64} {dst : Option E.Value}
    (hsrc : lookupVar E row params op.srcVar = .ok (some (.node startId labels properties)))
    (hexcluded : excludedEdgeIds E row params op.excludedRelVars = .ok excluded)
    (hdst : boundDst E row params op.dstVar = .ok dst) (srcVal : E.Value) :
    out ∈ (walksFrom G op excluded startId).filterMap (emitEntry E G op row srcVal (dst.bind Value.nodeId)) ↔
      ∃ entry r, IsMatchedWalk G op row params entry ∧ G.findNode entry.nodeId = some r ∧
        out = walkRow E G op row srcVal (r.value E entry.nodeId none) entry := by
  rw [List.mem_filterMap]
  constructor
  · rintro ⟨entry, hentry, hemit⟩
    unfold emitEntry at hemit
    split at hemit
    · rename_i hlong
      split at hemit
      · cases hemit
      · rename_i r hr
        split at hemit
        · cases hemit
        · rename_i hexpected
          refine ⟨entry, r, ⟨startId, labels, properties, excluded, dst, hsrc, hexcluded, hdst, hentry, hlong, hr ▸ rfl, ?_⟩, hr,
            (Option.some.inj hemit).symm⟩
          intro nodeId hid
          simpa [hid] using hexpected
    · cases hemit
  · rintro ⟨entry, r, ⟨startId', labels', properties', excluded', dst', hsrc', hexcluded', hdst', hentry, hlong, -, hend⟩, hr, rfl⟩
    cases hsrc.symm.trans hsrc'
    cases hexcluded.symm.trans hexcluded'
    cases hdst.symm.trans hdst'
    refine ⟨entry, hentry, ?_⟩
    unfold emitEntry
    rw [if_pos hlong, hr]
    simp only
    rw [if_neg]
    cases hid : dst.bind Value.nodeId with
    | none => simp
    | some nodeId => simpa using hend nodeId hid

theorem keepsRow_varLengthRow {op : VarLengthExpand} {row : E.Row} {params : Params} {part : List E.Row}
    (h : varLengthRow E G op row params = .ok part) :
    (∀ out ∈ part, KeepsRow row out) ↔ WalksFit G op row params := by
  unfold varLengthRow at h
  obtain ⟨src, hsrc, h⟩ := bind_eq_ok.mp h
  have hwalk : ∀ entry, IsMatchedWalk G op row params entry → ∃ startId labels properties,
      src = some (.node startId labels properties) := by
    rintro entry ⟨startId, labels, properties, excluded, dst, hsrc', -⟩
    rw [hsrc] at hsrc'
    exact ⟨startId, labels, properties, Except.ok.inj hsrc'⟩
  -- where the source is no node there are no walks
  have hno : (∀ startId labels properties, src ≠ some (.node startId labels properties)) →
      (WalksFit G op row params ↔ ((src = none ∨ src = some .null) → op.optional = true →
        ∀ x ∈ op.dstVar :: op.relVar.toList, ∀ v, row[x]? = some v → v = .null)) := by
    intro hnot
    constructor
    · intro hfit hsrc'
      refine hfit.filled ?_
      rw [hsrc]
      rcases hsrc' with rfl | rfl
      · exact .inl rfl
      · exact .inr rfl
    · intro hfill
      refine ⟨fun hsrc' => hfill ?_, fun entry hentry => ?_, fun ⟨startId, labels, properties, hnode⟩ => ?_⟩
      · rw [hsrc] at hsrc'
        exact hsrc'.imp Except.ok.inj Except.ok.inj
      · obtain ⟨startId, labels, properties, hnode⟩ := hwalk entry hentry
        exact absurd hnode (hnot _ _ _)
      · rw [hsrc] at hnode
        exact absurd (Except.ok.inj hnode) (hnot _ _ _)
  split at h
  · cases h
    rw [hno (by simp), keepsRow_nullWalkSrc]
    simp
  · cases h
    rw [hno (by simp), keepsRow_nullWalkSrc]
    simp
  · rename_i startId labels properties
    obtain ⟨excluded, hexcluded, h⟩ := bind_eq_ok.mp h
    obtain ⟨dst, hdst, h⟩ := bind_eq_ok.mp h
    cases h
    have hmem := fun out => @mem_emitted _ G op row out _ _ _ _ _ _ hsrc hexcluded hdst (.node startId labels properties)
    have hfits : WalksFit G op row params ↔ (∀ entry, IsMatchedWalk G op row params entry → WalkFits G op row entry) ∧
        (op.optional = true → (∀ entry, ¬ IsMatchedWalk G op row params entry) →
          KeepsRow row (nullWalk E op row (dst.bind Value.nodeId))) := by
      rw [keepsRow_nullWalk hdst]
      constructor
      · exact fun hfit => ⟨hfit.walks, hfit.noWalk ⟨startId, labels, properties, hsrc⟩⟩
      · rintro ⟨hwalks, hnone⟩
        refine ⟨fun hnull => ?_, hwalks, fun _ => hnone⟩
        rw [hsrc] at hnull
        rcases hnull with hnull | hnull <;> cases hnull
    have hkeeps : ∀ (entry : BfsEntry) (r : NodeEntry), IsMatchedWalk G op row params entry →
        (KeepsRow row (walkRow E G op row (.node startId labels properties) (r.value E entry.nodeId none) entry) ↔
          WalkFits G op row entry) := by
      rintro entry r ⟨_, _, _, _, dst', _, _, hdst', -, -, -, hend⟩
      exact keepsRow_walkRow hdst' hend
    rw [hfits]
    cases hop : op.optional && List.isEmpty _ with
    | true =>
      rw [Bool.and_eq_true, List.isEmpty_iff] at hop
      have hnone : ∀ entry, ¬ IsMatchedWalk G op row params entry := by
        intro entry hentry
        obtain ⟨_, _, _, _, _, _, _, _, _, _, hfound, _⟩ := id hentry
        obtain ⟨r, hr⟩ := Option.isSome_iff_exists.mp hfound
        have hin := (hmem _).mpr ⟨entry, r, hentry, hr, rfl⟩
        rw [hop.2] at hin
        cases hin
      simp only [↓reduceIte, List.mem_singleton, forall_eq]
      exact ⟨fun hkept => ⟨fun entry hentry => absurd hentry (hnone entry), fun _ _ => hkept⟩, fun h => h.2 hop.1 hnone⟩
    | false =>
      simp only [Bool.false_eq_true, ↓reduceIte]
      constructor
      · refine fun hkept => ⟨fun entry hentry => ?_, fun hopt hnone => ?_⟩
        · obtain ⟨_, _, _, _, _, _, _, _, _, _, hfound, _⟩ := id hentry
          obtain ⟨r, hr⟩ := Option.isSome_iff_exists.mp hfound
          exact (hkeeps entry r hentry).mp (hkept _ ((hmem _).mpr ⟨entry, r, hentry, hr, rfl⟩))
        · -- an optional walk without a match is filled with nulls
          rw [hopt, Bool.true_and, ← Bool.not_eq_true, List.isEmpty_iff] at hop
          obtain ⟨out, hout⟩ := List.exists_mem_of_ne_nil _ hop
          obtain ⟨entry, -, hentry, -⟩ := (hmem out).mp hout
          exact absurd hentry (hnone entry)
      · rintro ⟨hwalks, -⟩ out hout
        obtain ⟨entry, r, hentry, hr, rfl⟩ := (hmem out).mp hout
        exact (hkeeps entry r hentry).mpr (hwalks entry hentry)
  · rename_i other hnull hnode
    cases h
    rw [hno fun startId labels properties heq => hnode startId labels properties (Option.some.inj heq)]
    simp only [List.not_mem_nil, false_imp_iff, implies_true, reduceCtorEq, Option.some.injEq, false_or, true_iff]
    exact fun heq => absurd heq hnull

/-! ## The operators -/

theorem RowByRow.mono {P Q : E.Row → List E.Row → Prop} {rows outs : List E.Row} (h : RowByRow P rows outs)
    (hPQ : ∀ row part, P row part → Q row part) : RowByRow Q rows outs := by
  obtain ⟨parts, hparts, hall⟩ := h
  exact ⟨parts, hparts, hall.imp fun row part => hPQ row part⟩

theorem rowByRow_expand {op : Expand} {params : Params} {rows outs : List E.Row}
    (h : execExpand E G op rows params = .ok outs) :
    RowByRow (fun row part => (∀ out ∈ part, KeepsRow row out) ↔ ExpandFits G op row params part) rows outs ∨
      (op.optional = true ∧ outs = [nullExpandRow E op]) := by
  unfold execExpand at h
  cases hlabel : dstLabelUnsatisfiable G op with
  | true =>
    rw [hlabel] at h
    cases h
    refine .inl ⟨rows.map fun row => if op.optional then [nullDst E op row] else [], ?_, ?_⟩
    · cases op.optional with
      | false => simp
      | true => exact List.map_eq_flatMap
    · rw [List.forall₂_map_right_iff, List.forall₂_same]
      intro row _
      have hnothing : FollowsNothing G op row params := .inl hlabel
      cases hop : op.optional with
      | false => simpa using ⟨fun _ hopt => by simp [hop] at hopt, fun hnot => absurd hnothing hnot⟩
      | true =>
        simp only [↓reduceIte, List.mem_singleton, forall_eq]
        rw [nullDst, keepsRow_fill]
        exact ⟨fun h => ⟨fun _ _ => h, fun hnot => absurd hnothing hnot⟩, fun h => h.filled hnothing hop⟩
  | false =>
    rw [hlabel] at h
    obtain ⟨result, hresult, h⟩ := bind_eq_ok.mp h
    cases h
    split
    · rename_i hfill
      rw [Bool.and_eq_true] at hfill
      exact .inr ⟨hfill.1, rfl⟩
    · exact .inl (keepsRow_expandRows hlabel (by simp [NodesOnly]) hresult)

theorem rowByRow_varLengthExpand {op : VarLengthExpand} {params : Params} {rows outs : List E.Row}
    (h : execVarLengthExpand E G op rows params = .ok outs) :
    RowByRow (fun row part => (∀ out ∈ part, KeepsRow row out) ↔ WalksFit G op row params) rows outs := by
  unfold execVarLengthExpand at h
  obtain ⟨parts, hparts, h⟩ := bind_eq_ok.mp h
  cases h
  exact ⟨parts, rfl, (mapM_eq_ok.mp hparts).imp fun row part hpart => keepsRow_varLengthRow hpart⟩

theorem rowByRow_crossProduct (C : Catalog) {left : LogicalPlan E.ch} {var : String} {n : NodePattern} {optional : Bool}
    {params : Params} {outs : List E.Row}
    (h : execute E G (.crossProduct left (scanNode C var n optional)) params = .ok outs) :
    ∃ rows, execute E G left params = .ok rows ∧
      RowByRow (fun row part => ∃ scanned, execute E G (scanNode C var n optional) (mergeParams E params row) = .ok scanned ∧
        ((∀ out ∈ part, KeepsRow row out) ↔
          ∀ v, row[var]? = some v → ∀ r ∈ scanned, SameThing v (getOrNull E r var))) rows outs := by
  unfold execute at h
  obtain ⟨rows, hrows, h⟩ := bind_eq_ok.mp h
  obtain ⟨parts, hparts, h⟩ := bind_eq_ok.mp h
  cases h
  refine ⟨rows, hrows, parts, rfl, (mapM_eq_ok.mp hparts).imp fun row part hpart => ?_⟩
  obtain ⟨scanned, hscanned, hpart⟩ := bind_eq_ok.mp hpart
  cases hpart
  refine ⟨scanned, hscanned, ?_⟩
  have hkeeps : ∀ r ∈ scanned, KeepsRow row (row ∪ r) ↔ ∀ v, row[var]? = some v → SameThing v (getOrNull E r var) := by
    intro r hr
    obtain ⟨w, rfl⟩ := execute_scanNode_forall hscanned r hr
    unfold KeepsRow
    rw [keeps_union .refl, getOrNull, get_insert_self]
    constructor
    · exact fun h v hv => h var v w hv (get_insert_self _ _ _)
    · intro h x v u hv hu
      rw [get_insert] at hu
      split at hu
      · rename_i hx
        cases hu
        exact h v (hx ▸ hv)
      · rw [Std.ExtTreeMap.getElem?_empty] at hu
        cases hu
  simp only [List.forall_mem_map]
  exact ⟨fun h v hv r hr => (hkeeps r hr).mp (h r hr) v hv, fun h r hr => (hkeeps r hr).mpr fun v hv => h v hv r hr⟩

namespace MatchBindingsAux

/-- The nodes 1 and 2 with a relationship from the first to the second. -/
def pairGraph : Graph := .ofLists [(1, ⟨[], []⟩), (2, ⟨[], []⟩)] [⟨10, "R", 1, 2, []⟩]

/-- `(a)-->(b)`. -/
def aToB : Pattern := ⟨none, [.node ⟨some "a", [], [], false⟩, .relationship ⟨none, [], .out, [], none⟩,
  .node ⟨some "b", [], [], false⟩]⟩

def noIndexes : Catalog := ⟨fun _ _ => false, fun _ _ _ => .ok ()⟩

/-- The variables of the pattern after an `OPTIONAL MATCH` that did not find `b`. -/
def nullB : Engine.bare.Row := ((∅ : Engine.bare.Row).insert "a" (.node 1 [] [])).insert "b" .null

/-- The expansion of the pattern from `a` to `b`. -/
def aToBOp : Expand := ⟨"a", none, "b", [], .out, [], [], [], false, none⟩

end MatchBindingsAux

open MatchBindingsAux

end PgEddy
