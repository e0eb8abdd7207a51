import PgEddy.Lemmas.PlanTwins
import PgEddy.Lemmas.Walks

/-!
# A walk of variable length with and without a path

With a path the walk leaves out only the fixed relationships that the pattern names, and the path is checked for duplicates
later. Without a path the walk leaves out all of them. So the rows of the second plan are those of the first without the rows
whose path has a relationship twice.
-/

namespace PgEddy

open RowAux Related

variable {E : Engine} {G : Graph}

/-! ## The relationships of a path -/

/-- The relationships of a path, as the check for duplicates sees them. -/
def pathEdgeIds (row : E.Row) (elementVars : List String) : List Int64 :=
  (pathSteps E row (elementVars.drop 1)).2.filterMap Value.edgeId

/-- No relationship of a path is null. -/
def NoNullRel (row : E.Row) (elementVars : List String) : Prop :=
  ∀ rv ∈ relSlots elementVars, (getOrNull E row rv).isNull = false

/-- Rows of the two plans at the end of the pattern. -/
structure PathTwin (slots : List Slot) (elementVars : List String) (row row' : E.Row) : Prop where
  agree : AgreeOn Visible row row'
  edges : ∃ edgeIds : List Int64,
    List.Forall₂ (fun s e => Binds row s.named e ∧ ∀ x, s.other = some x → Binds row' x e) slots edgeIds ∧
      ((pathEdgeIds row elementVars).Nodup ↔ edgeIds.Nodup)
  noNull : NoNullRel row elementVars

/-- The path of the row has a relationship twice. -/
structure PathRepeats (elementVars : List String) (row : E.Row) : Prop where
  repeats : ¬(pathEdgeIds row elementVars).Nodup
  noNull : NoNullRel row elementVars

/-- The variables of the elements after the first node. -/
def slotVars (slots : List Slot) : List String := slots.flatMap fun t => [t.named, t.dst]

theorem Binds.getOrNull_edge {row : E.Row} {x : String} {edgeId : Int64} (h : Binds row x edgeId) :
    ∃ t source target properties, getOrNull E row x = .edge edgeId t source target properties := by
  obtain ⟨v, hv, he⟩ := h
  unfold getOrNull
  rw [hv, Option.getD_some]
  cases v with
  | edge e t source target properties =>
    cases Option.some.inj he
    exact ⟨t, source, target, properties, rfl⟩
  | _ => cases he

theorem relSlots_slotVars (slots : List Slot) (first : String) (rest : List String) :
    ∃ x, relSlots (first :: (slotVars slots ++ rest)) = slots.map Slot.named ++ relSlots (x :: rest) := by
  induction slots generalizing first with
  | nil => exact ⟨first, rfl⟩
  | cons t slots ih =>
    obtain ⟨x, hx⟩ := ih t.dst
    exact ⟨x, congrArg (t.named :: ·) hx⟩

theorem pathSteps_slotVars {row : E.Row} {slots : List Slot} {edgeIds : List Int64}
    (h : List.Forall₂ (fun s e => Binds row s.named e) slots edgeIds) (rest : List String) :
    (pathSteps E row (slotVars slots ++ rest)).2.filterMap Value.edgeId =
      edgeIds ++ (pathSteps E row rest).2.filterMap Value.edgeId := by
  induction h with
  | nil => rfl
  | @cons t e slots edgeIds hb _ ih =>
    obtain ⟨rt, source, target, properties, he⟩ := hb.getOrNull_edge
    have hstep : pathStep E row t.named (some t.dst) = ([getOrNull E row t.dst], [.edge e rt source target properties]) := by
      unfold pathStep
      rw [he]
      rfl
    change ((pathStep E row t.named (some t.dst)).2 ++ (pathSteps E row (slotVars slots ++ rest)).2).filterMap Value.edgeId = _
    rw [hstep, List.filterMap_append, ih]
    rfl

/-- The rows after fixed hops only. -/
theorem RowTwin.pathTwin {slots : List Slot} {row row' : E.Row} (h : RowTwin slots row row') (first : String) :
    PathTwin slots (first :: slotVars slots) row row' := by
  obtain ⟨edgeIds, hes⟩ := h.edges
  have hbinds : List.Forall₂ (fun s e => Binds row s.named e) slots edgeIds := hes.imp fun _ _ hb => hb.1
  refine ⟨h.agree, ⟨edgeIds, hes, ?_⟩, ?_⟩
  · have hids : pathEdgeIds row (first :: slotVars slots) = edgeIds := by
      have := pathSteps_slotVars hbinds []
      rw [List.append_nil] at this
      exact this.trans (List.append_nil _)
    rw [hids]
  · intro rv hrv
    obtain ⟨x, hx⟩ := relSlots_slotVars slots first []
    rw [List.append_nil] at hx
    rw [hx, show relSlots [x] = [] from rfl, List.append_nil, List.mem_map] at hrv
    obtain ⟨t, ht, rfl⟩ := hrv
    obtain ⟨i, hi, rfl⟩ := List.getElem_of_mem ht
    obtain ⟨rt, source, target, properties, he⟩ := (hbinds.get hi (hbinds.length_eq ▸ hi)).getOrNull_edge
    simp only [List.get_eq_getElem] at he
    rw [he]
    rfl

/-! ## The path of a walk -/

theorem inlinePath_rels (rels nodes : List E.Value) : (inlinePath E rels nodes).2 = rels := by
  induction rels generalizing nodes with
  | nil => cases nodes <;> rfl
  | cons r rels ih =>
    cases nodes with
    | nil => exact congrArg (r :: ·) (ih [])
    | cons node nodes => exact congrArg (r :: ·) (ih nodes)

theorem walkEdge_edgeId (direction : RelDirection) (ends : Option (Int64 × Int64)) (e : RelRecord) :
    (walkEdge E direction ends e).edgeId = some e.edgeId := rfl

theorem filterMap_mapIdx {α β γ : Type} {f : Nat → α → β} {g : β → Option γ} {k : α → γ} {l : List α}
    (h : ∀ i, ∀ a ∈ l, g (f i a) = some (k a)) : (l.mapIdx f).filterMap g = l.map k := by
  induction l generalizing f with
  | nil => rfl
  | cons a l ih =>
    rw [List.mapIdx_cons, List.filterMap_cons, h 0 a List.mem_cons_self, List.map_cons]
    exact congrArg (k a :: ·) (ih fun i b hb => h (i + 1) b (List.mem_cons_of_mem _ hb))

theorem buildPathFromIds_edgeIds {edgeIds : List Int64} (h : ∀ id ∈ edgeIds, ∃ e, G.findEdge id = some e ∧ e.edgeId = id)
    (nodeIds : List Int64) (direction : RelDirection) : ∃ nodes rels, buildPathFromIds E G nodeIds edgeIds direction = .path nodes rels ∧
      rels.filterMap Value.edgeId = edgeIds := by
  refine ⟨_, _, rfl, ?_⟩
  rw [filterMap_mapIdx (k := id), List.map_id]
  intro i a ha
  obtain ⟨e, he, hid⟩ := h a ha
  rw [he]
  exact (walkEdge_edgeId direction _ e).trans (congrArg some hid)

theorem get_walkRow (op : VarLengthExpand) (row : E.Row) (src dst : E.Value) (entry : BfsEntry) (x : String) :
    (walkRow E G op row src dst entry)[x]? =
      if op.pathCarryVar = some x then some (buildPathFromIds E G entry.pathNodeIds entry.pathEdgeIds op.direction)
      else if op.relVar = some x then some (buildRelListFromIds E G entry.pathEdgeIds)
      else if op.dstVar = x then some dst
      else if op.srcVar = x ∧ row[op.srcVar]? = none then some src
      else row[x]? := by
  unfold walkRow
  rw [get_insertOpt, get_insertOpt, get_insert, get_orInsert]

/-! ## The rows of a walk -/

/-- Two walks that differ in what they leave out and in that the first stores its path. -/
structure TwinWalks (slots : List Slot) (carryVar : String) (op op' : VarLengthExpand) : Prop where
  same : op' = { op with pathCarryVar := none, excludedRelVars := op'.excludedRelVars }
  notOptional : op.optional = false
  src : Visible op.srcVar
  dst : Visible op.dstVar
  rel : ∀ x, op.relVar = some x → Visible x
  carry : op.pathCarryVar = some carryVar
  carryHidden : ¬Visible carryVar
  excluded : op.excludedRelVars = slots.filterMap fun t => t.rel.var
  excluded' : op'.excludedRelVars = slots.filterMap Slot.other
  fixed : ∀ t ∈ slots, t.Fixed true
  carryNew : ∀ t ∈ slots, t.named ≠ carryVar
  relNew : ∀ t ∈ slots, op.relVar ≠ some t.named ∧ op.relVar ≠ t.other
  dstNew : ∀ t ∈ slots, t.named ≠ op.dstVar ∧ t.other ≠ some op.dstVar

theorem excludedEdgeIds_of_binds {row : E.Row} {vars : List String} {edgeIds : List Int64}
    (h : List.Forall₂ (Binds row) vars edgeIds) (params : Params) : excludedEdgeIds E row params vars = .ok edgeIds := by
  induction h with
  | nil => rfl
  | @cons x e vars edgeIds hb _ ih =>
    obtain ⟨v, hv, he⟩ := hb
    unfold excludedEdgeIds lookupVar
    rw [hv, ih]
    change Except.ok ((Value.edgeId v).toList ++ edgeIds) = _
    rw [he]
    rfl

/-- The relationships of some of the slots. -/
theorem binds_filterMap {row : E.Row} {f : Slot → Option String} {slots : List Slot} {edgeIds : List Int64}
    (h : List.Forall₂ (fun t e => ∀ x, f t = some x → Binds row x e) slots edgeIds) :
    ∃ ids, List.Forall₂ (Binds row) (slots.filterMap f) ids ∧ List.Sublist ids edgeIds ∧
      ((∀ t ∈ slots, (f t).isSome) → ids = edgeIds) := by
  induction h with
  | nil => exact ⟨[], .nil, .slnil, fun _ => rfl⟩
  | @cons t e slots edgeIds hb _ ih =>
    obtain ⟨ids, hids, hsub, hall⟩ := ih
    rw [List.filterMap_cons]
    cases hf : f t with
    | none =>
      refine ⟨ids, hids, hsub.cons e, fun hsome => ?_⟩
      have := hsome t List.mem_cons_self
      rw [hf] at this
      cases this
    | some x =>
      refine ⟨e :: ids, .cons (hb x hf) hids, hsub.cons_cons e, fun hsome => ?_⟩
      rw [hall fun t' ht' => hsome t' (List.mem_cons_of_mem _ ht')]

theorem Slot.Fixed.other_isSome {t : Slot} (h : t.Fixed true) : t.other.isSome := by
  cases hv : t.rel.var with
  | some x => rw [(h.own x hv).2.2]; rfl
  | none =>
    obtain ⟨k, hk⟩ := (h.anonymous hv).2
    rw [hk]
    rfl

/-- The row of one walk: its path has a relationship twice exactly if the walk uses one of the fixed hops. -/
theorem walkRow_twin {slots : List Slot} {carryVar : String} {op op' : VarLengthExpand}
    (h : TwinWalks slots carryVar op op') {row row' : E.Row} (hagree : AgreeOn Visible row row')
    (hsrc : row[op.srcVar]?.isSome) {edgeIds : List Int64}
    (hes : List.Forall₂ (fun s e => Binds row s.named e ∧ ∀ x, s.other = some x → Binds row' x e) slots edgeIds)
    (src dst : E.Value) (first : String) {excluded : List Int64} {entry : BfsEntry} (hwalk : IsWalk G excluded entry) :
    NoNullRel (walkRow E G op row src dst entry) (first :: (slotVars slots ++ [carryVar, op.dstVar])) ∧
      pathEdgeIds (walkRow E G op row src dst entry) (first :: (slotVars slots ++ [carryVar, op.dstVar])) =
        edgeIds ++ entry.pathEdgeIds ∧
      AgreeOn Visible (walkRow E G op row src dst entry) (walkRow E G op' row' src dst entry) ∧
      List.Forall₂ (fun s e => Binds (walkRow E G op row src dst entry) s.named e ∧
        ∀ x, s.other = some x → Binds (walkRow E G op' row' src dst entry) x e) slots edgeIds := by
  have hnew := get_walkRow (G := G) op row src dst entry
  have hsrc' : row'[op.srcVar]?.isSome := hagree _ h.src ▸ hsrc
  have hbound : ∀ {r : E.Row}, r[op.srcVar]?.isSome → ∀ x, ¬(op.srcVar = x ∧ r[op.srcVar]? = none) := by
    intro r hs x hx
    rw [hx.2] at hs
    cases hs
  have hcarry' : op'.pathCarryVar = none := by rw [h.same]
  have hrel' : op'.relVar = op.relVar := by rw [h.same]
  have hdst' : op'.dstVar = op.dstVar := by rw [h.same]
  have hsv : op'.srcVar = op.srcVar := by rw [h.same]
  have hnew' := get_walkRow (G := G) op' row' src dst entry
  simp only [hcarry', hrel', hdst', hsv, reduceCtorEq, ↓reduceIte] at hnew'
  -- the walk sets none of the variables of the fixed hops
  have hslots : List.Forall₂ (fun s e => Binds (walkRow E G op row src dst entry) s.named e ∧
      ∀ x, s.other = some x → Binds (walkRow E G op' row' src dst entry) x e) slots edgeIds := by
    refine ((List.forall₂_and_left _ _).mpr ⟨fun t ht => ht, hes⟩).imp ?_
    rintro t e ⟨ht, ⟨v, hv, he⟩, hother⟩
    refine ⟨⟨v, ?_, he⟩, fun x hx => ?_⟩
    · rw [hnew, h.carry, if_neg fun hc => h.carryNew t ht (Option.some.inj hc).symm, if_neg (h.relNew t ht).1,
        if_neg (Ne.symm (h.dstNew t ht).1), if_neg (hbound hsrc _), hv]
    · obtain ⟨v', hv', he'⟩ := hother x hx
      refine ⟨v', ?_, he'⟩
      have hdne : op.dstVar ≠ x := fun hc => (h.dstNew t ht).2 (hc ▸ hx)
      rw [hnew', if_neg fun hc => (h.relNew t ht).2 (hc.trans hx.symm), if_neg hdne, if_neg (hbound hsrc' _), hv']
  obtain ⟨nodes, rels, hpath, hids⟩ := buildPathFromIds_edgeIds (E := E) hwalk.found entry.pathNodeIds op.direction
  have hcarry : getOrNull E (walkRow E G op row src dst entry) carryVar = .path nodes rels := by
    unfold getOrNull
    rw [hnew, if_pos h.carry, hpath, Option.getD_some]
  have hbinds : List.Forall₂ (fun s e => Binds (walkRow E G op row src dst entry) s.named e) slots edgeIds :=
    hslots.imp fun _ _ hb => hb.1
  refine ⟨?_, ?_, ?_, hslots⟩
  · intro rv hrv
    obtain ⟨x, hx⟩ := relSlots_slotVars slots first [carryVar, op.dstVar]
    rw [hx, List.mem_append] at hrv
    rcases hrv with hrv | hrv
    · obtain ⟨t, ht, rfl⟩ := List.mem_map.mp hrv
      obtain ⟨i, hi, rfl⟩ := List.getElem_of_mem ht
      obtain ⟨rt, source, target, properties, he⟩ := (hbinds.get hi (hbinds.length_eq ▸ hi)).getOrNull_edge
      simp only [List.get_eq_getElem] at he
      rw [he]
      rfl
    · rw [List.mem_singleton.mp hrv, hcarry]
      rfl
  · refine (pathSteps_slotVars hbinds _).trans (congrArg (edgeIds ++ ·) ?_)
    change ((pathStep E _ carryVar (some op.dstVar)).2 ++ []).filterMap Value.edgeId = _
    unfold pathStep
    rw [hcarry, List.append_nil]
    change (inlinePath E rels (nodes.drop 1)).2.filterMap Value.edgeId = _
    rw [inlinePath_rels, hids]
  · intro x hx
    have hne : carryVar ≠ x := fun he => h.carryHidden (he ▸ hx)
    rw [hnew, hnew', h.carry, if_neg fun hc => hne (Option.some.inj hc), if_neg (hbound hsrc x), if_neg (hbound hsrc' x),
      hagree x hx]

/-- The entries of the search: those whose walk uses one of the fixed hops have no row in the second plan. -/
theorem emitEntries_twin {slots : List Slot} {carryVar : String} {op op' : VarLengthExpand}
    (h : TwinWalks slots carryVar op op') {row row' : E.Row} (hagree : AgreeOn Visible row row')
    (hsrc : row[op.srcVar]?.isSome) {edgeIds : List Int64}
    (hes : List.Forall₂ (fun s e => Binds row s.named e ∧ ∀ x, s.other = some x → Binds row' x e) slots edgeIds)
    (src : E.Value) (expected : Option Int64) (first : String) {excluded : List Int64} {entries : List BfsEntry}
    (hwalks : ∀ entry ∈ entries, IsWalk G excluded entry) :
    Thinned (PathTwin slots (first :: (slotVars slots ++ [carryVar, op.dstVar])))
      (PathRepeats (first :: (slotVars slots ++ [carryVar, op.dstVar])))
      (entries.filterMap (emitEntry E G op row src expected))
      ((entries.filter (avoids edgeIds)).filterMap (emitEntry E G op' row' src expected)) := by
  have hlong : isLongEnough op' = isLongEnough op := by rw [h.same]; rfl
  induction entries with
  | nil => exact .nil
  | cons entry entries ih =>
    obtain ⟨hwalk, hrest⟩ := List.forall_mem_cons.mp hwalks
    -- what the entry gives in the two plans
    have hcases : (emitEntry E G op row src expected entry = none ∧ emitEntry E G op' row' src expected entry = none) ∨
        ∃ dst, emitEntry E G op row src expected entry = some (walkRow E G op row src dst entry) ∧
          emitEntry E G op' row' src expected entry = some (walkRow E G op' row' src dst entry) := by
      unfold emitEntry
      rw [hlong]
      split
      · cases G.findNode entry.nodeId with
        | none => exact .inl ⟨rfl, rfl⟩
        | some r =>
          dsimp only
          split
          · exact .inl ⟨rfl, rfl⟩
          · exact .inr ⟨_, rfl, rfl⟩
      · exact .inl ⟨rfl, rfl⟩
    rw [List.filterMap_cons, List.filter_cons]
    rcases hcases with ⟨hnone, hnone'⟩ | ⟨dst, hsome, hsome'⟩
    · rw [hnone]
      by_cases hav : avoids edgeIds entry
      · rw [if_pos hav, List.filterMap_cons, hnone']
        exact ih hrest
      · rw [if_neg hav]
        exact ih hrest
    · obtain ⟨hnull, hpath, hagree', hslots⟩ := walkRow_twin h hagree hsrc hes src dst first hwalk
      rw [hsome]
      have hnodup : (edgeIds ++ entry.pathEdgeIds).Nodup ↔ edgeIds.Nodup ∧ List.Disjoint edgeIds entry.pathEdgeIds := by
        rw [List.nodup_append']
        exact ⟨fun hc => ⟨hc.1, hc.2.2⟩, fun hc => ⟨hc.1, hwalk.nodup, hc.2⟩⟩
      by_cases hav : avoids edgeIds entry
      · rw [if_pos hav, List.filterMap_cons, hsome']
        refine .keep ⟨hagree', ⟨edgeIds, hslots, ?_⟩, hnull⟩ (ih hrest)
        rw [hpath, hnodup]
        exact and_iff_left (avoids_iff.mp hav)
      · rw [if_neg hav]
        refine .drop ⟨?_, hnull⟩ (ih hrest)
        rw [hpath, hnodup]
        exact fun hc => hav (avoids_iff.mpr hc.2)

/-- A walk keeps the rows of the two plans together, but for the rows whose path has a relationship twice. -/
theorem varLengthRow_twin (hG : G.FindsFollowed) {slots : List Slot} {carryVar : String} {op op' : VarLengthExpand}
    (h : TwinWalks slots carryVar op op') {row row' : E.Row} (hrow : RowTwin slots row row') (hsrc : row[op.srcVar]?.isSome)
    (params : Params) (first : String) :
    Both (Thinned (PathTwin slots (first :: (slotVars slots ++ [carryVar, op.dstVar])))
        (PathRepeats (first :: (slotVars slots ++ [carryVar, op.dstVar]))))
      (varLengthRow E G op row params) (varLengthRow E G op' row' params) := by
  have hrel' : op'.relVar = op.relVar := by rw [h.same]
  have hdst' : op'.dstVar = op.dstVar := by rw [h.same]
  have hsv : op'.srcVar = op.srcVar := by rw [h.same]
  have hopt' : op'.optional = false := by rw [h.same]; exact h.notOptional
  have htypes : op'.relTypes = op.relTypes := by rw [h.same]
  have hdir : op'.direction = op.direction := by rw [h.same]
  have hmax : op'.maxHops = op.maxHops := by rw [h.same]
  obtain ⟨edgeIds, hes⟩ := hrow.edges
  -- what the two walks leave out
  have hown : List.Forall₂ (fun t e => ∀ x, t.rel.var = some x → Binds row x e) slots edgeIds := by
    refine ((List.forall₂_and_left _ _).mpr ⟨fun t ht => ht, hes⟩).imp ?_
    rintro t e ⟨ht, hb, -⟩ x hx
    rw [← ((h.fixed t ht).own x hx).2.1]
    exact hb
  obtain ⟨ids, hids, hsub, -⟩ := binds_filterMap hown
  obtain ⟨ids', hids', -, hall⟩ := binds_filterMap (f := Slot.other) (hes.imp fun _ _ hb => hb.2)
  obtain rfl := hall fun t ht => (h.fixed t ht).other_isSome
  have hdst := hrow.agree.boundDst params h.dst
  unfold varLengthRow
  rw [hsv, ← hrow.agree.lookupVar params h.src, h.excluded, h.excluded', excludedEdgeIds_of_binds hids,
    excludedEdgeIds_of_binds hids', hdst', ← hdst]
  cases lookupVar E row params op.srcVar with
  | error f => exact .error f
  | ok src =>
    rcases src with _ | v
    · simp only [nullWalkSrc, h.notOptional, hopt']
      exact .ok .nil
    · cases v with
      | null =>
        simp only [nullWalkSrc, h.notOptional, hopt']
        exact .ok .nil
      | node startId labels properties =>
        cases boundDst E row params op.dstVar with
        | error f => exact .error f
        | ok existing =>
          have hex : ∀ id, id ∈ ids' ↔ id ∈ ids ∨ id ∈ ids' := fun id => ⟨.inr, fun hid => hid.elim (fun hid => hsub.subset hid) fun hid => hid⟩
          have hwalks := walksFrom_avoids (G := G) htypes hdir hmax hex startId
          have hthin := emitEntries_twin h hrow.agree hsrc hes (.node startId labels properties) (existing.bind Value.nodeId)
            first (walksFrom_isWalk hG op ids startId)
          rw [← hwalks] at hthin
          simp only [h.notOptional, hopt']
          exact .ok hthin
      | _ => exact .ok .nil

/-! ## The end of a pattern -/

/-- The plans of the two patterns at the end of the pattern. If the first returns rows, so does the second. -/
def PlansTwin (E : Engine) (G : Graph) (params : Params) (slots : List Slot) (elementVars : List String)
    (plan plan' : LogicalPlan E.ch) : Prop :=
  ∀ rows, execute E G plan params = .ok rows → ∃ rows', execute E G plan' params = .ok rows' ∧
    Thinned (PathTwin slots elementVars) (PathRepeats elementVars) rows rows'

/-- A filter that does not read the variables of the planner keeps the rows of the two plans together. -/
theorem PlansTwin.filter {params : Params} {slots : List Slot} {elementVars : List String} {plan plan' : LogicalPlan E.ch}
    (h : PlansTwin E G params slots elementVars plan plan') {e : Expr} (he : DependsOn E Visible e) :
    PlansTwin E G params slots elementVars (.filter plan e) (.filter plan' e) := by
  intro rows hrows
  unfold execute at hrows ⊢
  cases hin : execute E G plan params with
  | error f => rw [hin] at hrows; cases hrows
  | ok input =>
    rw [hin] at hrows
    obtain ⟨input', hin', hthin⟩ := h input hin
    rw [hin']
    refine hthin.filterMapM ?_ ?_ hrows
    · intro row row' hrow
      rw [he params row row' hrow.agree]
      cases evalExpr E e row' params with
      | error f => exact .error f
      | ok v =>
        refine .ok ?_
        cases v.isTruthy with
        | true => exact .some hrow
        | false => exact .none
    · intro row row' hrow hsome
      cases hv : evalExpr E e row params with
      | error f => simp only [hv, bind, Except.bind, reduceCtorEq] at hsome
      | ok v =>
        simp only [hv, bind, Except.bind, pure, Except.pure, Except.ok.injEq] at hsome
        split at hsome
        · exact Option.some.inj hsome ▸ hrow
        · cases hsome

theorem PlansTwin.withFilters {params : Params} {slots : List Slot} {elementVars : List String}
    {plan plan' : LogicalPlan E.ch} (h : PlansTwin E G params slots elementVars plan plan') {filters : List Expr}
    (hfilters : ∀ e ∈ filters, DependsOn E Visible e) :
    PlansTwin E G params slots elementVars (PgEddy.withFilters plan filters) (PgEddy.withFilters plan' filters) := by
  induction filters generalizing plan plan' with
  | nil => exact h
  | cons e filters ih =>
    obtain ⟨he, hrest⟩ := List.forall_mem_cons.mp hfilters
    exact ih (h.filter he) hrest

theorem dependsOn_allProps {V : String → Prop} {x : String} (hx : V x) {props : List (String × Expr)}
    (hprops : ∀ p ∈ props, DependsOn E V p.2) {pred : Expr} (hpred : allProps x props = some pred) : DependsOn E V pred := by
  cases props with
  | nil => cases hpred
  | cons p rest =>
    obtain ⟨hp, hrest⟩ := List.forall_mem_cons.mp hprops
    have hfold : ∀ {acc : Expr}, DependsOn E V acc →
        DependsOn E V (rest.foldl (fun pred q => .and pred (propEq x q.1 q.2)) acc) := by
      clear hpred hprops
      induction rest with
      | nil => exact id
      | cons q rest ih =>
        obtain ⟨hq, hrest⟩ := List.forall_mem_cons.mp hrest
        exact fun hacc => ih hrest (hacc.and (dependsOn_propEq hx hq))
    cases Option.some.inj hpred
    exact hfold (dependsOn_propEq hx hp)

theorem dependsOn_walkFilter {i : Nat} {rel : RelPattern} (hprops : ∀ p ∈ rel.properties, DependsOn E Visible p.2)
    {walkVar : Option String} (hwalk : ∀ x, walkVar = some x → Visible x) :
    ∀ e ∈ walkFilter i rel walkVar, DependsOn E Visible e := by
  intro e he
  unfold walkFilter at he
  dsimp only at he
  split at he
  · rename_i rv pred hpred
    rw [List.mem_singleton.mp he]
    have hiter : Visible ("_r_" ++ toString i) := isRelName_iterVar _
    exact (dependsOn_var (hwalk rv rfl)).listPredicate (dependsOn_allProps hiter hprops hpred) _ _
  · cases he

/-- The filters on the node after a walk. -/
def dstFilters (next : NodePattern) (dstVar : String) : List Expr :=
  (next.labels.map fun l => Expr.hasLabel (.var dstVar) [l]) ++ next.properties.map fun p => propEq dstVar p.1 p.2

theorem dependsOn_dstFilters {next : NodePattern} {dstVar : String} (hdst : Visible dstVar)
    (hprops : ∀ p ∈ next.properties, DependsOn E Visible p.2) : ∀ e ∈ dstFilters next dstVar, DependsOn E Visible e := by
  intro e he
  rcases List.mem_append.mp he with he | he
  · obtain ⟨l, -, rfl⟩ := List.mem_map.mp he
    exact (dependsOn_var hdst).hasLabel [l]
  · obtain ⟨p, hp, rfl⟩ := List.mem_map.mp he
    exact dependsOn_propEq hdst (hprops p hp)

/-- A relationship of variable length in a first clause. -/
theorem planRel_walk {scope : PatternScope} (hbound : scope.bound = []) {i : Nat} {rel : RelPattern} {next : NodePattern}
    {vl : VarLength} (hlength : rel.length = some vl) (hvar : walkRelVar scope i rel = rel.var) (relVar : Option String)
    (kinds : VarKinds) (srcVar dstVar : String) (plan : LogicalPlan E.ch) :
    planRel scope i rel next relVar kinds srcVar dstVar plan =
      withFilters (withFilters
        (.varLengthExpand plan ⟨srcVar, rel.var, dstVar, rel.relTypes, rel.direction, vl.min, vl.max, scope.optional,
          pathCarryVar scope rel relVar, scope.allFixedRelVars⟩)
        (walkFilter i rel rel.var)) (dstFilters next dstVar) := by
  have hlist : rel.var.filter (isPreboundList scope.bound kinds) = none := by
    rw [Option.filter_eq_none_iff]
    intro rv _
    simp [isPreboundList, hbound]
  unfold planRel
  simp only [hlength, hlist, hvar]
  rfl

variable {tracks : Bool} {scope scope' : PatternScope} {params : Params} {firstVar : String} {slots : List Slot}
  {s s' : PatternPlan E.ch} {rel : RelPattern} {next : NodePattern}

/-- The states of the two planners at the end of the pattern. -/
structure EndTwin (E : Engine) (G : Graph) (params : Params) (tracks : Bool) (slots : List Slot) (t t' : PatternPlan E.ch) :
    Prop where
  plans : PlansTwin E G params slots t.elementVars t.plan t'.plan
  fixed : ∀ s ∈ slots, s.Fixed tracks
  nodup : (slots.filterMap Slot.other).Nodup
  rels : ∃ walked, t.newRelVars = (slots.filterMap fun s => s.rel.var) ++ walked ∧
    t'.newRelVars = slots.filterMap Slot.other ++ walked ∧ walked.Nodup ∧
    ∀ x ∈ walked, isInternal x = false ∧ ∀ s ∈ slots, s.rel.var ≠ some x

/-- The pattern ends after a fixed hop. -/
theorem StateTwin.endTwin (h : StateTwin E G params firstVar tracks slots s s') : EndTwin E G params tracks slots s s' := by
  refine ⟨?_, h.slots, h.nodup, [], ?_, ?_, List.nodup_nil, nofun⟩
  · intro rows hrows
    have hboth := h.rows
    rw [hrows] at hboth
    generalize execute E G s'.plan params = x at hboth ⊢
    cases hboth with
    | ok hfor =>
      rw [h.elements]
      exact ⟨_, rfl, Thinned.of_forall₂ (hfor.imp fun _ _ hr => hr.twin.pathTwin firstVar)⟩
  · rw [List.append_nil, h.newRels]
  · rw [List.append_nil, h.newRels']

theorem pathCarryVar_eq (hnamed : scope.isNamed = true) (hlength : rel.length.isSome) (rv : String) :
    pathCarryVar scope rel (some rv) = some (elementRelVar rel rv) := by
  unfold pathCarryVar elementRelVar
  rw [if_pos hnamed, hlength, Bool.true_and]
  split <;> rfl

theorem walkRelVar_eq (hprops : rel.var = none → rel.properties = []) (scope : PatternScope) (i : Nat) :
    walkRelVar scope i rel = rel.var := by
  unfold walkRelVar
  cases hvar : rel.var with
  | some rv => rfl
  | none =>
    rw [hprops hvar]
    simp

/-- The variable of a stored path is not one of the pattern, and not one of a fixed hop. -/
theorem elementRelVar_hidden {v v' : Option String × Nat} {rv : String} (hn : HopNames s s' rel v v' rv)
    (hlength : rel.length.isSome) :
    ¬Visible (elementRelVar rel rv) ∧ ∀ t : Slot, t.Fixed true → t.named ≠ rv → t.named ≠ elementRelVar rel rv := by
  unfold elementRelVar
  rw [hlength, Bool.true_and]
  split
  · have hhidden : ¬Visible ("_path_carry_" ++ rv) := fun h => Bool.false_ne_true (h.symm.trans (isRelName_pathCarry rv))
    refine ⟨hhidden, fun t ht _ he => ?_⟩
    cases hvar : t.rel.var with
    | some x =>
      obtain ⟨hx, hname, -⟩ := ht.own x hvar
      exact hhidden (he ▸ hname ▸ not_isRelName_of_not_isInternal hx)
    | none =>
      obtain ⟨⟨k, hk⟩, -⟩ := ht.anonymous hvar
      exact pathRel_ne_pathCarry k rv (hk ▸ he)
  · rename_i hvar
    obtain ⟨⟨k, hk⟩, -⟩ := hn.anonymous (by simpa using hvar)
    exact ⟨hk ▸ not_visible_pathRel k, fun _ _ hne => hne⟩

/-- The walks of the two plans. -/
theorem StateTwin.plansTwin (hG : G.FindsFollowed) (h : StateTwin E G params firstVar tracks slots s s') {carryVar : String}
    {op op' : VarLengthExpand} (hops : TwinWalks slots carryVar op op') (hsrc : op.srcVar = s.lastNodeVar) :
    PlansTwin E G params slots (firstVar :: (slotVars slots ++ [carryVar, op.dstVar])) (.varLengthExpand s.plan op)
      (.varLengthExpand s'.plan op') := by
  intro rows hrows
  have hboth : Both (Thinned (PathTwin slots (firstVar :: (slotVars slots ++ [carryVar, op.dstVar])))
      (PathRepeats (firstVar :: (slotVars slots ++ [carryVar, op.dstVar]))))
      (execute E G (.varLengthExpand s.plan op) params) (execute E G (.varLengthExpand s'.plan op') params) := by
    unfold execute
    refine h.rows.bind fun input input' hinput => ?_
    unfold execVarLengthExpand
    refine (both_mapM hinput fun row row' hrow => ?_).bind fun outs outs' houts => .ok (Thinned.flatten houts)
    exact varLengthRow_twin hG hops hrow.twin (hsrc ▸ hrow.last) params firstVar
  rw [hrows] at hboth
  generalize execute E G (.varLengthExpand s'.plan op') params = x at hboth ⊢
  cases hboth with
  | ok hthin => exact ⟨_, rfl, hthin⟩

/-- The pattern ends with a walk of variable length. -/
theorem planHop_walk_twin (hG : G.FindsFollowed) (hsc : TwinScopes true scope scope')
    (h : StateTwin E G params firstVar true slots s s') {i : Nat} {vl : VarLength} (hlength : rel.length = some vl)
    (hprops : rel.var = none → rel.properties = []) (hrel : OwnNames rel.var) (hnext : OwnNames next.var)
    (hrelProps : ∀ p ∈ rel.properties, DependsOn E Visible p.2) (hnextProps : ∀ p ∈ next.properties, DependsOn E Visible p.2)
    (hexcluded : scope.allFixedRelVars = slots.filterMap fun t => t.rel.var)
    (hexcluded' : scope'.allFixedRelVars = slots.filterMap Slot.other)
    {t t' : PatternPlan E.ch} (ht : planHop scope i rel next s = .ok t) (ht' : planHop scope' i rel next s' = .ok t') :
    EndTwin E G params true slots t t' := by
  obtain ⟨v, hv, hck, rfl⟩ := planHop_cases ht
  obtain ⟨v', hv', hck', rfl⟩ := planHop_cases ht'
  obtain ⟨⟨rv, hn⟩, htr⟩ := hopNames hsc h hrel hv hv'
  have hapart := hopApart hsc h hrel hnext hn hck hck'
  rw [hopDst_twin hsc h]
  generalize hopDst scope i next s = dst at hapart ⊢
  have hsome : rel.length.isSome := by rw [hlength]; rfl
  have hv'rel : v'.1 = rel.var := by
    cases hvar : rel.var with
    | some x => exact (hn.own x hvar).2
    | none =>
      have := htr hvar
      rw [hlength, if_neg (by simp)] at this
      exact this
  have hvisible : ∀ x, rel.var = some x → Visible x := fun x hx => not_isRelName_of_not_isInternal (hrel x hx)
  obtain ⟨hhidden, hcarryNew⟩ := elementRelVar_hidden hn hsome
  have hwalks : TwinWalks slots (elementRelVar rel rv)
      ⟨s.lastNodeVar, rel.var, dst, rel.relTypes, rel.direction, vl.min, vl.max, scope.optional, pathCarryVar scope rel v.1,
        scope.allFixedRelVars⟩
      ⟨s'.lastNodeVar, rel.var, dst, rel.relTypes, rel.direction, vl.min, vl.max, scope'.optional,
        pathCarryVar scope' rel v'.1, scope'.allFixedRelVars⟩ := by
    have hcarry' : pathCarryVar scope' rel v'.1 = none := by
      unfold pathCarryVar
      rw [if_neg (by rw [hsc.named']; exact Bool.false_ne_true)]
    refine ⟨by rw [h.last, hsc.optional, hsc.optional', hcarry'], hsc.optional, h.lastVisible, hapart.visible, hvisible, ?_,
      hhidden, hexcluded, hexcluded', h.slots, ?_, ?_, ?_⟩
    · rw [hn.named]
      exact pathCarryVar_eq hsc.named hsome rv
    · exact fun t ht => hcarryNew t (h.slots t ht) (hapart.slots t ht).1
    · intro t ht
      obtain ⟨hne, -, hother⟩ := hapart.slots t ht
      refine ⟨fun hc => hne (hn.own _ hc).1.symm, fun hc => ?_⟩
      obtain ⟨x, hx⟩ := Option.isSome_iff_exists.mp (h.slots t ht).other_isSome
      exact (hother x hx).1 (hv'rel.trans (hc.trans hx))
    · intro t ht
      exact ⟨(hapart.slots t ht).2.1, fun hc => ((hapart.slots t ht).2.2 dst hc).2 rfl⟩
  refine ⟨?_, h.slots, h.nodup, ?_⟩
  · have hvars : (enterNode scope (enterRel scope s rel v.1 v.2) dst).elementVars =
        firstVar :: (slotVars slots ++ [elementRelVar rel rv, dst]) := by
      change (enterRel scope s rel v.1 v.2).elementVars ++ (if scope.isNamed then [dst] else []) = _
      rw [hn.named, enterRel_elementVars hsc.named, if_pos hsc.named, h.elements]
      simp [slotVars]
    dsimp only
    rw [hvars, planRel_walk hsc.bound hlength (walkRelVar_eq hprops _ _), planRel_walk hsc.bound' hlength
      (walkRelVar_eq hprops _ _)]
    refine ((h.plansTwin hG hwalks rfl).withFilters ?_).withFilters ?_
    · exact dependsOn_walkFilter hrelProps hvisible
    · exact dependsOn_dstFilters hapart.visible hnextProps
  · refine ⟨rel.var.toList, ?_, ?_, rel.var.toList_nodup, ?_⟩
    · change (enterRel scope s rel v.1 v.2).newRelVars = _
      rw [enterRel_newRelVars hapart.fresh, h.newRels, hn.named]
      refine congrArg _ ?_
      cases hvar : rel.var with
      | some x => simp [(hn.own x hvar).1]
      | none =>
        obtain ⟨k, hk⟩ := (hn.anonymous hvar).1
        simp [hk, startsWith_anonRel_pathRel]
    · change (enterRel scope' s' rel v'.1 v'.2).newRelVars = _
      rw [enterRel_newRelVars hn.fresh', h.newRels', hv'rel]
      refine congrArg _ ?_
      cases hvar : rel.var <;> rfl
    · intro x hx
      rw [Option.mem_toList] at hx
      refine ⟨hrel x hx, fun t ht hc => (hapart.slots t ht).1 ?_⟩
      rw [((h.slots t ht).own x hc).2.1, (hn.own x hx).1]

end PgEddy
