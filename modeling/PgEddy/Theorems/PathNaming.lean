import PgEddy.Lemmas.Scans
import PgEddy.Lemmas.Uniqueness
import PgEddy.Lemmas.WalkTwins

/-!
# Naming a path

The same pattern with and without a path variable matches the same rows, as long as no relationship of variable length without a
variable has properties, and none is followed by another relationship. A named path skips the properties of the first, and
checks the second for duplicates where the other pattern does not.
-/

namespace PgEddy

open RowAux Related

variable (C : Catalog) {E : Engine} {G : Graph}

/-! ## Patterns -/

/-- The property map of an element. -/
def elementProps : PatternElement → List (String × Expr)
  | .node n => n.properties
  | .relationship r => r.properties

/-- The relationships among some elements. -/
def elementRels (elements : List PatternElement) : List RelPattern := elements.filterMap PatternElementOf.rel?

/-- Elements on which the two planners agree. -/
structure PlainElements (E : Engine) (elements : List PatternElement) : Prop where
  /-- No variable looks like one of the planner's. -/
  names : ∀ e ∈ elements, OwnNames (elementVar e)
  /-- The properties do not read the variables that the planner makes for relationships. -/
  props : ∀ e ∈ elements, ∀ p ∈ elementProps e, DependsOn E Visible p.2
  /-- A relationship of variable length without a variable has no properties. -/
  walkProps : ∀ r ∈ elementRels elements, r.length.isSome → r.var = none → r.properties = []
  /-- Only the last relationship may be of variable length. -/
  walkLast : ∀ r ∈ (elementRels elements).dropLast, r.length = none

theorem PlainElements.tail {e : PatternElement} {rest : List PatternElement} (h : PlainElements E (e :: rest)) :
    PlainElements E rest := by
  refine ⟨fun e' he' => h.names e' (List.mem_cons_of_mem _ he'), fun e' he' => h.props e' (List.mem_cons_of_mem _ he'), ?_, ?_⟩
  · intro r hr
    refine h.walkProps r ?_
    unfold elementRels at hr ⊢
    rw [List.filterMap_cons]
    split
    · exact hr
    · exact List.mem_cons_of_mem _ hr
  · intro r hr
    refine h.walkLast r ?_
    unfold elementRels at hr ⊢
    rw [List.filterMap_cons]
    split
    · exact hr
    · rw [List.dropLast_cons_of_ne_nil (List.ne_nil_of_mem (List.dropLast_subset _ hr))]
      exact List.mem_cons_of_mem _ hr

theorem planElements_nodes {scope : PatternScope} {i : Nat} {elements : List PatternElement} {s : PatternPlan E.ch}
    (h : elementRels elements = []) : planElements scope i elements s = .ok s := by
  induction elements generalizing i with
  | nil => rfl
  | cons e elements ih =>
    cases e with
    | node n => exact ih h
    | relationship r => cases h

theorem fixedRelVars_nodes {isNamed tracks : Bool} {ac : Nat} {elements : List PatternElement}
    (h : elementRels elements = []) : fixedRelVars isNamed tracks ac elements = [] := by
  induction elements with
  | nil => rfl
  | cons e elements ih =>
    cases e with
    | node n => exact ih h
    | relationship r => cases h

/-- The variables that the walks of a pattern with a path leave out. -/
theorem fixedRelVar_named {tracks : Bool} {ac : Nat} {rel : RelPattern} (hfixed : rel.length = none) :
    fixedRelVar true tracks ac rel = (rel.var, ac) := by
  unfold fixedRelVar
  rw [hfixed]
  cases rel.var <;> rfl

variable {params : Params} {firstVar : String} {tracks : Bool} {scope scope' : PatternScope}

/-- The elements of a pattern keep the states of the two planners together up to its end. -/
theorem planElements_twin (hG : G.FindsFollowed) (hsc : TwinScopes tracks scope scope') {i : Nat}
    {elements : List PatternElement} (hel : PlainElements E elements)
    (htracks : ∀ r ∈ elementRels elements, r.length.isSome → tracks = true) {slots : List Slot} {s s' : PatternPlan E.ch}
    (h : StateTwin E G params firstVar tracks slots s s')
    (hexcluded : scope.allFixedRelVars = (slots.filterMap fun t => t.rel.var) ++ fixedRelVars true tracks 0 elements)
    (hexcluded' : scope'.allFixedRelVars =
      slots.filterMap Slot.other ++ fixedRelVars false tracks s'.anonRelCounter elements)
    {t t' : PatternPlan E.ch} (ht : planElements scope i elements s = .ok t)
    (ht' : planElements scope' i elements s' = .ok t') :
    ∃ slots', slots'.map Slot.rel = slots.map Slot.rel ++ (elementRels elements).filter (fun r => r.length.isNone) ∧
      EndTwin E G params tracks slots' t t' := by
  induction i, elements, s using planElements.induct generalizing slots s' with
  | case1 i rel next rest s ih =>
    have hmem : PatternElementOf.relationship rel ∈ PatternElementOf.relationship rel :: .node next :: rest := List.mem_cons_self
    have hmem' : PatternElementOf.node next ∈ PatternElementOf.relationship rel :: .node next :: rest :=
      List.mem_cons_of_mem _ List.mem_cons_self
    have hrels : elementRels (.relationship rel :: .node next :: rest) = rel :: elementRels rest := rfl
    unfold planElements at ht ht'
    cases hu : planHop scope i rel next s with
    | error e => rw [hu] at ht; cases ht
    | ok u =>
      cases hu' : planHop scope' i rel next s' with
      | error e => rw [hu'] at ht'; cases ht'
      | ok u' =>
        rw [hu] at ht
        rw [hu'] at ht'
        cases hlength : rel.length with
        | none =>
          -- a fixed hop, and then the rest of the pattern
          obtain ⟨slot, hslot, hname, hstate⟩ := planHop_twin hsc h hlength (hel.names _ hmem) (hel.names _ hmem')
            (hel.props _ hmem) (hel.props _ hmem') hu hu'
          obtain ⟨slots', hmap, hend⟩ := ih u hel.tail.tail (fun r hr => htracks r (List.mem_cons_of_mem _ hr)) hstate
            (by
              rw [hexcluded, fixedRelVars, fixedRelVar_named hlength, List.filterMap_append, List.append_assoc,
                List.filterMap_cons, hslot]
              cases rel.var <;> rfl)
            (by
              rw [hexcluded', fixedRelVars, hname, List.filterMap_append, List.append_assoc]
              cases hother : slot.other <;> simp [hother])
            ht ht'
          refine ⟨slots', ?_, hend⟩
          rw [hmap, List.map_append, hrels, List.filter_cons_of_pos (by rw [hlength]; rfl), List.append_assoc]
          simp [hslot]
        | some vl =>
          -- a walk of variable length, after which there are only nodes
          have hlast : elementRels rest = [] := by
            by_contra hne
            have := hel.walkLast rel (by rw [hrels, List.dropLast_cons_of_ne_nil hne]; exact List.mem_cons_self)
            rw [hlength] at this
            cases this
          have hsome : rel.length.isSome := by rw [hlength]; rfl
          have htr : tracks = true := htracks rel (by rw [hrels]; exact List.mem_cons_self) hsome
          subst htr
          have hnone : ∀ isNamed tracks ac, (fixedRelVar isNamed tracks ac rel) = (none, ac) := by
            intro isNamed tracks ac
            unfold fixedRelVar
            rw [if_pos hsome]
          have hwalked : ∀ isNamed tracks ac, fixedRelVars isNamed tracks ac (.relationship rel :: .node next :: rest) = [] := by
            intro isNamed tracks ac
            rw [fixedRelVars, hnone]
            exact fixedRelVars_nodes hlast
          rw [hwalked, List.append_nil] at hexcluded hexcluded'
          have hend := planHop_walk_twin hG hsc h hlength (hel.walkProps rel (by rw [hrels]; exact List.mem_cons_self) hsome)
            (hel.names _ hmem) (hel.names _ hmem') (hel.props _ hmem) (hel.props _ hmem') hexcluded hexcluded' hu hu'
          change planElements scope (i + 2) rest u = .ok t at ht
          change planElements scope' (i + 2) rest u' = .ok t' at ht'
          rw [planElements_nodes hlast] at ht ht'
          cases ht
          cases ht'
          refine ⟨slots, ?_, hend⟩
          rw [hrels, List.filter_cons_of_neg (by rw [hlength]; simp), hlast, List.filter_nil, List.append_nil]
  | case2 i r rest s hrest =>
    rcases rest with _ | ⟨e, rest⟩
    · cases ht
    · cases e with
      | node n => exact absurd rfl (hrest n rest)
      | relationship r' => cases ht
  | case3 i n rest s ih =>
    exact ih hel.tail htracks h hexcluded hexcluded' ht ht'
  | case4 i s =>
    cases ht
    cases ht'
    exact ⟨slots, (List.append_nil _).symm, h.endTwin⟩

/-! ## One pattern -/

/-- The loop over the elements of a pattern of a first clause. -/
def patternScope (pattern : Pattern) (rest : List PatternElement) : PatternScope :=
  ⟨pattern.var.isSome, fixedHopCount pattern > 1 || hasVarlen pattern, [], false,
    fixedRelVars pattern.var.isSome (fixedHopCount pattern > 1 || hasVarlen pattern) 0 rest⟩

def firstNodeVar (first : NodePattern) : String := nodeVar first "_anon_n0" []

def patternStart (pattern : Pattern) (first : NodePattern) : PatternPlan E.ch where
  plan := planFirstNode C .singleRow first (firstNodeVar first) false false
  newNodeVars := [firstNodeVar first]
  newRelVars := []
  kinds := (∅ : VarKinds).insert (firstNodeVar first) .node
  elementVars := if pattern.var.isSome then [firstNodeVar first] else []
  anonRelCounter := 0
  lastNodeVar := firstNodeVar first

theorem planPatternOnto_cases {pattern : Pattern} {p : PatternPlan E.ch}
    (h : planPatternOnto C pattern .singleRow [] ∅ false = .ok p) :
    ∃ first rest t, pattern.elements = .node first :: rest ∧
      planElements (patternScope pattern rest) 1 rest (patternStart C pattern first) = .ok t ∧
      p = match pattern.var with
        | some pathVar => { t with plan := .namedPath t.plan pathVar t.elementVars }
        | none => t := by
  unfold planPatternOnto at h
  split at h
  · rename_i first rest hel
    have hbound : (first.var.isSome && decide (nodeVar first "_anon_n0" [] ∈ ([] : List String))) = false := by simp
    simp only [hbound, Bool.false_eq_true, ↓reduceIte] at h
    change (checkNodeKind first (firstNodeVar first) ∅ >>= fun _ =>
      planElements (patternScope pattern rest) 1 rest (patternStart C pattern first) >>= fun s =>
        match pattern.var with
        | some pathVar => pure { s with plan := .namedPath s.plan pathVar s.elementVars }
        | none => pure s) = .ok p at h
    cases hc : checkNodeKind first (firstNodeVar first) ∅ with
    | error e => rw [hc] at h; cases h
    | ok u =>
      cases ht : planElements (patternScope pattern rest) 1 rest (patternStart C pattern first) with
      | error e => rw [hc, ht] at h; cases h
      | ok t =>
        rw [hc, ht] at h
        refine ⟨first, rest, t, hel, ht, ?_⟩
        cases hvar : pattern.var with
        | some pathVar =>
          rw [hvar] at h
          exact (Except.ok.inj h).symm
        | none =>
          rw [hvar] at h
          exact (Except.ok.inj h).symm
  · cases h

/-- The states of the two planners after the first node. -/
theorem stateTwin_start {pattern : Pattern} {first : NodePattern} (hfirst : OwnNames first.var) (pathVar : String)
    (params : Params) (tracks : Bool) :
    StateTwin E G params (firstNodeVar first) tracks [] (patternStart C { pattern with var := some pathVar } first)
      (patternStart C pattern first) := by
  have hvis : Visible (firstNodeVar first) := visible_nodeVar hfirst "0" []
  have hkinds : ∀ x : String, ((∅ : VarKinds).insert (firstNodeVar first) .node)[x]? =
      if firstNodeVar first = x then some .node else none := by
    intro x
    rw [get_insert]
    rfl
  have hself : ((∅ : VarKinds).insert (firstNodeVar first) .node)[firstNodeVar first]?.isSome := by
    rw [hkinds, if_pos rfl]
    rfl
  have hnotRel : ∀ x : String, ((∅ : VarKinds).insert (firstNodeVar first) .node)[x]? ≠ some VarKind.rel := by
    intro x
    rw [hkinds]
    split <;> exact nofun
  constructor
  case rows =>
    change Both _ (execute E G (planFirstNode C .singleRow first (firstNodeVar first) false false) params)
      (execute E G (planFirstNode C .singleRow first (firstNodeVar first) false false) params)
    cases hrows : execute E G (planFirstNode C .singleRow first (firstNodeVar first) false false) params with
    | error f => exact .error f
    | ok rows =>
      refine .ok (List.forall₂_same.mpr fun row hrow => ?_)
      obtain ⟨v, rfl⟩ := execute_planFirstNode_forall hrows row hrow
      have hknown : Known ((∅ : VarKinds).insert (firstNodeVar first) .node) ((∅ : E.Row).insert (firstNodeVar first) v) := by
        intro x hx
        rw [get_insert] at hx
        split at hx
        · rename_i he
          exact he ▸ hself
        · cases hx
      refine ⟨⟨fun _ _ => rfl, [], .nil⟩, hknown, hknown, ?_⟩
      change ((∅ : E.Row).insert (firstNodeVar first) v)[firstNodeVar first]?.isSome
      rw [get_insert_self]
      rfl
  case last => rfl
  case lastVisible => exact hvis
  case lastKnown => exact hself
  case newNodes => rfl
  case nodesKnown => exact fun x hx => List.mem_singleton.mp hx ▸ hself
  case kinds => exact fun _ _ => rfl
  case rels => exact fun x => iff_of_false (hnotRel x) nofun
  case rels' => exact fun x => iff_of_false (hnotRel x) nofun
  case newRels => rfl
  case newRels' => rfl
  case nodup => exact List.nodup_nil
  case counter =>
    intro k _
    have hne : firstNodeVar first ≠ pathRel k := fun he => not_visible_pathRel k (he ▸ hvis)
    exact (hkinds _).trans (if_neg hne)
  case counter' =>
    intro k _
    have hne : firstNodeVar first ≠ anonRel k := fun he => not_visible_anonRel k (he ▸ hvis)
    exact (hkinds _).trans (if_neg hne)
  case elements => rfl
  case slots => exact nofun

/-! ## One clause -/

/-- The variables of a pattern. -/
def patternVars (pattern : Pattern) : List String := pattern.elements.filterMap elementVar

/-- The bindings of some variables. -/
def restrict (vars : List String) (row : E.Row) : List (Option E.Value) := vars.map fun x => row[x]?

/-- The plan of `MATCH pattern` at the start of a query. -/
def planMatch (pattern : Pattern) : Except PlanError (Planned E.ch) := planMatchClause C .singleRow [pattern] none false [] ∅

theorem addNew_of_nodup {known vars : List String} (hvars : vars.Nodup) (hdisjoint : List.Disjoint known vars) :
    addNew known vars = known ++ vars := by
  induction vars generalizing known with
  | nil => exact (List.append_nil known).symm
  | cons x vars ih =>
    obtain ⟨hx, hrest⟩ := List.nodup_cons.mp hvars
    obtain ⟨hxk, hdis⟩ := List.disjoint_cons_right.mp hdisjoint
    change addNew (if x ∈ known then known else known ++ [x]) vars = _
    rw [if_neg hxk, ih hrest (by
      rw [List.disjoint_append_left]
      exact ⟨hdis, List.singleton_disjoint.mpr hx⟩), List.append_assoc]
    rfl

/-- The plan of a clause of one pattern is the plan of the pattern under the filter on its relationships. -/
theorem planMatch_cases {pattern : Pattern} {planned : Planned E.ch} (h : planMatch C pattern = .ok planned) :
    checkPathVar pattern [] ∅ = .ok () ∧ ∃ p, planPatternOnto C pattern .singleRow [] ∅ false = .ok p ∧
      planned.plan = withFilters p.plan
        (buildRelIsomorphismFilter (clauseFixedRelVars [pattern] (addNew [] p.newRelVars))).toList := by
  unfold planMatch planMatchClause at h
  rw [Bool.false_and, if_neg Bool.false_ne_true] at h
  unfold planPatterns at h
  cases hc : checkPathVar pattern [] ∅ with
  | error e => simp only [hc, bind, Except.bind, reduceCtorEq] at h
  | ok u =>
    cases hp : planPatternOnto C pattern .singleRow [] ∅ false with
    | error e => simp only [hc, hp, bind, Except.bind, reduceCtorEq] at h
    | ok p =>
      refine ⟨rfl, p, rfl, ?_⟩
      simp only [hc, hp, bind, Except.bind, planPatterns, pure, Except.pure, Except.ok.injEq] at h
      rw [← h]
      change withFilters p.plan (clauseFilter _ none).toList = _
      congr 1
      change (clauseFilter (buildRelIsomorphismFilter (clauseFixedRelVars [pattern] (addNew [] p.newRelVars))) none).toList = _
      cases buildRelIsomorphismFilter (clauseFixedRelVars [pattern] (addNew [] p.newRelVars)) <;> rfl

theorem execute_of_withFilters {plan : LogicalPlan E.ch} {filters : List Expr} {rows : List E.Row}
    (h : execute E G (withFilters plan filters) params = .ok rows) : ∃ input, execute E G plan params = .ok input := by
  induction filters generalizing plan with
  | nil => exact ⟨rows, h⟩
  | cons e filters ih =>
    obtain ⟨input, hinput⟩ := ih h
    unfold execute at hinput
    cases hin : execute E G plan params with
    | error f => rw [hin] at hinput; cases hinput
    | ok rows => exact ⟨rows, rfl⟩

/-- The relationships of a clause of one pattern are those of its fixed hops. -/
theorem clauseFixedRelVars_slots {pattern : Pattern} {slots : List Slot} {f : Slot → Option String}
    {walked : List String} (hslots : slots.map Slot.rel = (relationships pattern).filter fun r => r.length.isNone)
    (hf : ∀ t ∈ slots, ∀ x, f t = some x → t.rel.var = some x ∨ startsWith "_anon_rel_" x)
    (hwalked : ∀ x ∈ walked, isInternal x = false ∧ ∀ t ∈ slots, t.rel.var ≠ some x) :
    clauseFixedRelVars [pattern] (slots.filterMap f ++ walked) = slots.filterMap f := by
  have hmem : ∀ t ∈ slots, t.rel ∈ relationships pattern ∧ t.rel.length.isNone := by
    intro t ht
    have : t.rel ∈ (relationships pattern).filter fun r => r.length.isNone := hslots ▸ List.mem_map_of_mem ht
    exact List.mem_filter.mp this
  unfold clauseFixedRelVars
  rw [List.filter_append, List.filter_eq_self.mpr, List.filter_eq_nil_iff.mpr, List.append_nil]
  · intro x hx hany
    obtain ⟨hint, hnot⟩ := hwalked x hx
    simp only [List.any_cons, List.any_nil, Bool.or_false, List.any_eq_true, Bool.and_eq_true, Bool.or_eq_true,
      decide_eq_true_eq] at hany
    obtain ⟨r, hr, hfixed, hname⟩ := hany
    have hslot : r ∈ slots.map Slot.rel := hslots ▸ List.mem_filter.mpr ⟨hr, hfixed⟩
    obtain ⟨t, ht, rfl⟩ := List.mem_map.mp hslot
    rcases hname with hname | hname
    · exact hnot t ht hname
    · have hrel := not_isRelName_of_not_isInternal hint
      unfold isRelName relPrefixes at hrel
      rw [List.any_cons, hname, Bool.true_or] at hrel
      cases hrel
  · intro x hx
    obtain ⟨t, ht, hx⟩ := List.mem_filterMap.mp hx
    simp only [List.any_cons, List.any_nil, Bool.or_false, List.any_eq_true, Bool.and_eq_true, Bool.or_eq_true,
      decide_eq_true_eq]
    exact ⟨t.rel, (hmem t ht).1, (hmem t ht).2, hf t ht x hx⟩

/-- The check for duplicates in a path. -/
theorem namedPathRow_eq {row : E.Row} {elementVars : List String} (h : NoNullRel row elementVars) (pathVar : String) :
    ∃ path, namedPathRow E pathVar elementVars row =
      if (pathEdgeIds row elementVars).Nodup then some (row.insert pathVar path) else none := by
  unfold namedPathRow
  by_cases hone : elementVars.length = 1
  · obtain ⟨x, rfl⟩ := List.length_eq_one_iff.mp hone
    exact ⟨_, rfl⟩
  · rw [if_neg hone, if_neg]
    · exact ⟨_, rfl⟩
    · intro hany
      obtain ⟨rv, hrv, hnull⟩ := List.any_eq_true.mp hany
      rw [h rv hrv] at hnull
      cases hnull

/-- The own variables of the fixed hops are among those that the plan without a path gives them. -/
theorem own_sublist {tracks : Bool} {slots : List Slot} (h : ∀ t ∈ slots, t.Fixed tracks) :
    List.Sublist (slots.filterMap fun t => t.rel.var) (slots.filterMap Slot.other) := by
  induction slots with
  | nil => exact .slnil
  | cons t slots ih =>
    obtain ⟨ht, hrest⟩ := List.forall_mem_cons.mp h
    rw [List.filterMap_cons, List.filterMap_cons]
    cases hvar : t.rel.var with
    | some x =>
      rw [(ht.own x hvar).2.2]
      exact (ih hrest).cons_cons x
    | none =>
      cases t.other with
      | none => exact ih hrest
      | some y => exact (ih hrest).cons y

theorem other_disjoint {tracks : Bool} {slots : List Slot} (h : ∀ t ∈ slots, t.Fixed tracks) {walked : List String}
    (hwalked : ∀ x ∈ walked, isInternal x = false ∧ ∀ t ∈ slots, t.rel.var ≠ some x) :
    List.Disjoint (slots.filterMap Slot.other) walked := by
  intro x hx hxw
  obtain ⟨t, ht, hother⟩ := List.mem_filterMap.mp hx
  obtain ⟨hint, hnot⟩ := hwalked x hxw
  cases hvar : t.rel.var with
  | some y =>
    rw [((h t ht).own y hvar).2.2] at hother
    exact hnot t ht (hvar.trans hother)
  | none =>
    have hname := ((h t ht).anonymous hvar).2
    split at hname
    · obtain ⟨k, hk⟩ := hname
      rw [hk] at hother
      exact not_visible_anonRel k (Option.some.inj hother ▸ not_isRelName_of_not_isInternal hint)
    · rw [hname] at hother
      cases hother

/-- The fixed hops bind their relationships in the two rows, as far as they have a variable there. -/
theorem PathTwin.binds {tracks : Bool} {slots : List Slot} (hfixed : ∀ t ∈ slots, t.Fixed tracks)
    {elementVars : List String} {row row' : E.Row} (h : PathTwin slots elementVars row row') :
    ∃ edgeIds ids ids' : List Int64, List.Forall₂ (Binds row) (slots.filterMap fun t => t.rel.var) ids ∧
      List.Forall₂ (Binds row') (slots.filterMap Slot.other) ids' ∧
      ((pathEdgeIds row elementVars).Nodup ↔ edgeIds.Nodup) ∧ edgeIds.length = slots.length ∧
      List.Sublist ids edgeIds ∧ List.Sublist ids' edgeIds ∧ (tracks = true → ids' = edgeIds) := by
  obtain ⟨edgeIds, hes, hnodup⟩ := h.edges
  have hown : List.Forall₂ (fun t e => ∀ x, t.rel.var = some x → Binds row x e) slots edgeIds := by
    refine ((List.forall₂_and_left _ _).mpr ⟨fun t ht => ht, hes⟩).imp ?_
    rintro t e ⟨ht, hb, -⟩ x hx
    rw [← ((hfixed t ht).own x hx).2.1]
    exact hb
  obtain ⟨ids, hids, hsub, -⟩ := binds_filterMap hown
  obtain ⟨ids', hids', hsub', hall⟩ := binds_filterMap (f := Slot.other) (hes.imp fun _ _ hb => hb.2)
  refine ⟨edgeIds, ids, ids', hids, hids', hnodup, hes.length_eq.symm, hsub, hsub', fun htr => hall fun t ht => ?_⟩
  subst htr
  exact (hfixed t ht).other_isSome

theorem checkPathVar_notMem {pattern : Pattern} {pathVar : String}
    (h : checkPathVar { pattern with var := some pathVar } [] ∅ = .ok ()) : pathVar ∉ patternVars pattern := by
  intro hmem
  obtain ⟨e, he, hev⟩ := List.mem_filterMap.mp hmem
  have hany : (pattern.elements.any fun e => elementVar e = some pathVar) = true :=
    List.any_eq_true.mpr ⟨e, he, decide_eq_true hev⟩
  unfold checkPathVar at h
  simp only [hany, ↓reduceIte] at h
  split at h <;> cases h

theorem nodup_of_length_le_one {α : Type} {l : List α} (h : l.length ≤ 1) : l.Nodup := by
  match l, h with
  | [], _ => exact List.nodup_nil
  | [a], _ => exact List.nodup_singleton a

/-- Anonymous relationships get no name only in a pattern of at most one hop. -/
theorem length_slots_le {pattern : Pattern} {slots : List Slot}
    (hslots : slots.map Slot.rel = (relationships pattern).filter fun r => r.length.isNone)
    (htracks : (decide (fixedHopCount pattern > 1) || hasVarlen pattern) = false) : slots.length ≤ 1 := by
  have hcount : ¬fixedHopCount pattern > 1 := by
    rw [Bool.or_eq_false_iff, decide_eq_false_iff_not] at htracks
    exact htracks.1
  rw [← List.length_map (f := Slot.rel), hslots]
  exact Nat.le_of_not_gt hcount

/-- The rows at the end of a pattern, under the check of the path and the filters of the two clauses. -/
theorem EndTwin.rows {pattern : Pattern} {pathVar : String} {slots : List Slot} {t t' : PatternPlan E.ch}
    (h : EndTwin E G params (fixedHopCount pattern > 1 || hasVarlen pattern) slots t t')
    (hslots : slots.map Slot.rel = (relationships pattern).filter fun r => r.length.isNone)
    (hck : checkPathVar { pattern with var := some pathVar } [] ∅ = .ok ())
    (hvisible : ∀ x ∈ patternVars pattern, Visible x) {rows : List E.Row}
    (hrows : execute E G (withFilters (.namedPath t.plan pathVar t.elementVars)
      (buildRelIsomorphismFilter (clauseFixedRelVars [{ pattern with var := some pathVar }] (addNew [] t.newRelVars))).toList)
      params = .ok rows) :
    ∃ rows', execute E G (withFilters t'.plan
        (buildRelIsomorphismFilter (clauseFixedRelVars [pattern] (addNew [] t'.newRelVars))).toList) params = .ok rows' ∧
      rows.map (restrict (patternVars pattern)) = rows'.map (restrict (patternVars pattern)) := by
  obtain ⟨walked, hrels, hrels', hwalkedNodup, hwalked⟩ := h.rels
  have hdisjoint := other_disjoint h.fixed hwalked
  have hnotVar : pathVar ∉ patternVars pattern := checkPathVar_notMem hck
  -- the variables that the two filters are about
  have hvars : clauseFixedRelVars [{ pattern with var := some pathVar }] (addNew [] t.newRelVars) =
      slots.filterMap fun s => s.rel.var := by
    have hsub := own_sublist h.fixed
    rw [hrels, addNew_of_nodup _ (List.disjoint_nil_left _), List.nil_append]
    · exact clauseFixedRelVars_slots hslots (fun _ _ _ hx => .inl hx) hwalked
    · exact List.nodup_append'.mpr ⟨hsub.nodup h.nodup, hwalkedNodup, List.disjoint_of_subset_left hsub.subset hdisjoint⟩
  have hvars' : clauseFixedRelVars [pattern] (addNew [] t'.newRelVars) = slots.filterMap Slot.other := by
    rw [hrels', addNew_of_nodup _ (List.disjoint_nil_left _), List.nil_append]
    · refine clauseFixedRelVars_slots hslots (fun s hs x hx => ?_) hwalked
      cases hvar : s.rel.var with
      | some y =>
        rw [((h.fixed s hs).own y hvar).2.2] at hx
        exact .inl hx
      | none =>
        have hname := ((h.fixed s hs).anonymous hvar).2
        split at hname
        · obtain ⟨k, hk⟩ := hname
          rw [hk] at hx
          exact .inr (Option.some.inj hx ▸ startsWith_append _ _)
        · rw [hname] at hx
          cases hx
    · exact List.nodup_append'.mpr ⟨h.nodup, hwalkedNodup, hdisjoint⟩
  rw [hvars] at hrows
  rw [hvars']
  -- the rows before the checks
  obtain ⟨input, hinput⟩ := execute_of_withFilters hrows
  unfold execute at hinput
  cases hstart : execute E G t.plan params with
  | error f => rw [hstart] at hinput; cases hinput
  | ok start =>
    rw [hstart] at hinput
    have hinput' : input = start.filterMap (namedPathRow E pathVar t.elementVars) := (Except.ok.inj hinput).symm
    obtain ⟨start', hstart', hthin⟩ := h.plans start hstart
    have hexec : execute E G (.namedPath t.plan pathVar t.elementVars) params = .ok input := by
      unfold execute
      rw [hstart]
      exact hinput
    -- the filter of the clause with a path takes out nothing that the check of the path has left
    have hbinds : ∀ row ∈ input, ∃ ids, List.Forall₂ (Binds row) (slots.filterMap fun s => s.rel.var) ids ∧ ids.Nodup := by
      intro row hrow
      rw [hinput'] at hrow
      obtain ⟨row₀, hrow₀, hnamed⟩ := List.mem_filterMap.mp hrow
      rcases hthin.mem_left hrow₀ with ⟨row', -, htwin⟩ | hrepeats
      · obtain ⟨path, hpath⟩ := namedPathRow_eq htwin.noNull pathVar
        obtain ⟨edgeIds, ids, -, hids, -, hnodup, -, hsub, -⟩ := htwin.binds h.fixed
        rw [hpath] at hnamed
        split at hnamed
        · rename_i hpathNodup
          refine ⟨ids, ?_, hsub.nodup (hnodup.mp hpathNodup)⟩
          rw [← Option.some.inj hnamed]
          refine ((List.forall₂_and_left _ _).mpr ⟨fun x hx => hx, hids⟩).imp ?_
          rintro x e ⟨hx, v, hv, he⟩
          obtain ⟨s, hs, hsx⟩ := List.mem_filterMap.mp hx
          have hne : pathVar ≠ x := by
            rintro rfl
            have hmem : s.rel ∈ (relationships pattern).filter fun r => r.length.isNone := hslots ▸ List.mem_map_of_mem hs
            obtain ⟨e', he', hrel⟩ := List.mem_filterMap.mp (List.mem_filter.mp hmem).1
            refine hnotVar (List.mem_filterMap.mpr ⟨e', he', ?_⟩)
            cases e' with
            | node n => cases hrel
            | relationship r =>
              cases Option.some.inj hrel
              exact hsx
          exact ⟨v, (get_insert_of_ne hne).trans hv, he⟩
        · cases hnamed
      · obtain ⟨path, hpath⟩ := namedPathRow_eq hrepeats.noNull pathVar
        rw [hpath, if_neg hrepeats.repeats] at hnamed
        cases hnamed
    have hkeep : rows = input := by
      rw [execute_isoFilter hexec fun row hrow => (hbinds row hrow).imp fun _ hb => hb.1] at hrows
      refine (Except.ok.inj hrows).symm.trans (List.filter_eq_self.mpr fun row hrow => decide_eq_true ?_)
      obtain ⟨ids, hids, hnodup⟩ := hbinds row hrow
      rw [map_boundEdge hids]
      exact hnodup
    refine ⟨start'.filter (distinctIn (slots.filterMap Slot.other)), execute_isoFilter hstart' fun row' hrow' => ?_, ?_⟩
    · obtain ⟨row, -, htwin⟩ := hthin.mem_right hrow'
      obtain ⟨-, -, ids', -, hids', -⟩ := htwin.binds h.fixed
      exact ⟨ids', hids'⟩
    · -- the check of the path and the filter of the other clause leave the same rows
      have hrows' : List.Forall₂ (AgreeOn fun x => Visible x ∧ x ≠ pathVar) rows
          (start'.filter (distinctIn (slots.filterMap Slot.other))) := by
        rw [hkeep, hinput', ← List.filterMap_eq_filter]
        refine hthin.filterMap ?_ fun row hrepeats => ?_
        · intro row row' htwin
          obtain ⟨path, hpath⟩ := namedPathRow_eq htwin.noNull pathVar
          obtain ⟨edgeIds, -, ids', -, hids', hnodup, hlength, -, hsub, hall⟩ := htwin.binds h.fixed
          have hsame : distinctIn (slots.filterMap Slot.other) row' = decide (pathEdgeIds row t.elementVars).Nodup := by
            rw [distinctIn, map_boundEdge hids', decide_eq_decide, hnodup]
            refine ⟨fun hids => ?_, hsub.nodup⟩
            cases htr : decide (fixedHopCount pattern > 1) || hasVarlen pattern with
            | true => rw [← hall htr]; exact hids
            | false => exact nodup_of_length_le_one (hlength.trans_le (length_slots_le hslots htr))
          rw [hpath, Option.guard, hsame]
          by_cases hn : (pathEdgeIds row t.elementVars).Nodup
          · rw [if_pos hn, if_pos (decide_eq_true hn)]
            exact .some fun x hx => (get_insert_of_ne (Ne.symm hx.2)).trans (htwin.agree x hx.1)
          · rw [if_neg hn, if_neg (by rw [decide_eq_false hn]; exact Bool.false_ne_true)]
            exact .none
        · obtain ⟨path, hpath⟩ := namedPathRow_eq hrepeats.noNull pathVar
          rw [hpath, if_neg hrepeats.repeats]
      refine TwinAux.map_eq_of_forall₂ (fun row row' hagree => ?_) hrows'
      refine List.map_congr_left fun x hx => hagree x ⟨hvisible x hx, ?_⟩
      rintro rfl
      exact hnotVar hx

/-- The rows of `MATCH pattern` at the start of a query. -/
def matchRows (E : Engine) (G : Graph) (params : Params) (pattern : Pattern) : Except (PlanError ⊕ Failure) (List E.Row) :=
  match planMatch (E := E) C pattern with
  | .error e => .error (.inl e)
  | .ok planned => (execute E G planned.plan params).mapError .inr

theorem matchRows_cases {pattern : Pattern} {rows : List E.Row} (h : matchRows C E G params pattern = .ok rows) :
    ∃ planned, planMatch C pattern = .ok planned ∧ execute E G planned.plan params = .ok rows := by
  unfold matchRows at h
  split at h
  · cases h
  · rename_i planned hplanned
    refine ⟨planned, hplanned, ?_⟩
    cases hr : execute E G planned.plan params with
    | error f => rw [hr] at h; cases h
    | ok rows' => rw [hr] at h; rw [Except.ok.inj h]

namespace PathNamingAux

/-- An engine without functions. -/
def bareEngine : Engine where
  ch := ⟨Unit, Unit, fun _ => none, fun _ _ _ _ => none⟩
  temporalGetProperty _ _ := .null
  durationGetProperty _ _ := .null
  tryParseTemporalStr _ := .ok none
  compareDeep _ _ _ := .ok none
  evalArith _ _ _ := .ok .null
  regexp _ _ := false
  evalFunction _ _ := .done (.ok .null)
  shortestPath _ _ _ _ := .ok .null
  patternComprehension _ _ _ _ _ _ := .ok .null
  existsRow _ _ _ := .ok false

def noIndexes : Catalog := ⟨fun _ _ => false, fun _ _ _ => .ok ()⟩

def oneEdge : RelRecord := ⟨10, "R", 1, 2, []⟩

/-- The relationship 10 from the node 1 to the node 2. -/
def oneEdgeGraph : Graph where
  scanNodes := [1, 2]
  labelIndex _ := none
  findNode id := if id = 1 ∨ id = 2 then some ⟨[], []⟩ else none
  findEdge id := if id = 10 then some oneEdge else none
  adjacencyFollow id direction := [oneEdge].filter fun e => match direction with
    | .out => e.source = id
    | .in_ => e.target = id
    | .both => e.source = id || e.target = id
  lookupNodes _ _ _ := []

theorem oneEdgeGraph_findsFollowed : oneEdgeGraph.FindsFollowed := by
  intro nodeId direction e he
  rw [List.mem_singleton.mp (List.mem_filter.mp he).1]
  exact ⟨oneEdge, rfl, rfl⟩

def node (var : String) : PatternElement := .node ⟨some var, [], [], false⟩

/-- `(a)-[*1..1 {k: 1}]->(b)`. -/
def walkWithProps : Pattern := ⟨none, [node "a", .relationship ⟨none, [], .out, [("k", .intLit 1)], some ⟨1, some 1⟩⟩, node "b"]⟩

/-- `(a)-[]->(b)-[*0..1]->(c)`. -/
def hopAndWalk : Pattern :=
  ⟨none, [node "a", .relationship ⟨none, [], .out, [], none⟩, node "b", .relationship ⟨none, [], .out, [], some ⟨0, some 1⟩⟩,
    node "c"]⟩

/-- Both runs have rows, of these counts. -/
def rowCounts {ε α : Type} (m n : Except ε (List α)) (k : Nat) (l : Option Nat) : Bool :=
  match m, n with
  | .ok rows, .ok rows' => rows.length = k && l.all fun l => rows'.length = l
  | _, _ => false

theorem rowCounts_iff {ε α : Type} {m n : Except ε (List α)} {k : Nat} {l : Option Nat}
    (h : rowCounts m n k l = true) :
    ∃ rows rows', m = .ok rows ∧ n = .ok rows' ∧ rows.length = k ∧ ∀ c, l = some c → rows'.length = c := by
  unfold rowCounts at h
  split at h
  · rename_i rows rows'
    simp only [Bool.and_eq_true, decide_eq_true_eq, Option.all_eq_true] at h
    exact ⟨rows, rows', rfl, rfl, h.1, h.2⟩
  · cases h

end PathNamingAux

open PathNamingAux

end PgEddy
