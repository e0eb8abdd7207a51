import Mathlib.Data.List.Nodup
import PgEddy.Lemmas.PlanSteps
import PgEddy.Lemmas.Twins

/-!
# The two planners, hop by hop

The states of the planner on a pattern with a path and on the same pattern without one, after each of its fixed hops.
-/

namespace PgEddy

open RowAux Related

variable {E : Engine} {G : Graph}

/-! ## Names -/

/-- The names of a fixed hop: the one of the pattern in both plans, else internal ones. -/
structure Slot.Fixed (tracks : Bool) (t : Slot) : Prop where
  length : t.rel.length = none
  own : ∀ x, t.rel.var = some x → isInternal x = false ∧ t.named = x ∧ t.other = some x
  anonymous : t.rel.var = none →
    (∃ k, t.named = pathRel k) ∧ if tracks then ∃ k, t.other = some (anonRel k) else t.other = none

theorem isInternal_eq_or_false {x : String} (h : isInternal x = false) (r : String) : x ≠ "_anon_n" ++ r := by
  rintro rfl
  unfold isInternal at h
  rw [startsWith_append, Bool.or_true, Bool.true_or] at h
  cases h

/-- A relationship is not named like a node without a variable. -/
theorem Slot.Fixed.ne_anonNode {tracks : Bool} {t : Slot} (h : t.Fixed tracks) (r : String) :
    t.named ≠ "_anon_n" ++ r ∧ t.other ≠ some ("_anon_n" ++ r) := by
  have hinternal : ∀ x, isRelName x = true → x ≠ "_anon_n" ++ r := by
    rintro x hx rfl
    rw [isRelName_anonNode] at hx
    cases hx
  cases hv : t.rel.var with
  | some x =>
    obtain ⟨hx, hn, ho⟩ := h.own x hv
    rw [hn, ho]
    exact ⟨isInternal_eq_or_false hx r, fun he => isInternal_eq_or_false hx r (Option.some.inj he)⟩
  | none =>
    obtain ⟨⟨k, hk⟩, hother⟩ := h.anonymous hv
    refine ⟨hk ▸ hinternal _ (isRelName_pathRel k), ?_⟩
    split at hother
    · obtain ⟨k', hk'⟩ := hother
      rw [hk']
      exact fun he => hinternal _ (isRelName_anonRel k') (Option.some.inj he)
    · rw [hother]
      exact nofun

/-- The variables of an element are not internal ones. -/
def OwnNames (var : Option String) : Prop := ∀ x, var = some x → isInternal x = false

/-- A node of a pattern is visible. -/
theorem visible_nodeVar {n : NodePattern} (h : OwnNames n.var) (r : String) (taken : List String) :
    Visible (nodeVar n ("_anon_n" ++ r) taken) := by
  unfold nodeVar
  cases hv : n.var with
  | some x => exact not_isRelName_of_not_isInternal (h x hv)
  | none =>
    obtain ⟨r', hr'⟩ := freshName_eq_append taken.length taken ("_anon_n" ++ r)
    rw [Option.getD_none, hr', String.append_assoc]
    exact isRelName_anonNode _

/-! ## States -/

/-- The states of the planner after the same fixed hops of a pattern with and without a path. -/
structure StateTwin (E : Engine) (G : Graph) (params : Params) (firstVar : String) (tracks : Bool) (slots : List Slot)
    (s s' : PatternPlan E.ch) : Prop where
  rows : Both (List.Forall₂ (RowsTwin slots s.kinds s'.kinds s.lastNodeVar)) (execute E G s.plan params)
    (execute E G s'.plan params)
  last : s'.lastNodeVar = s.lastNodeVar
  lastVisible : Visible s.lastNodeVar
  lastKnown : s.kinds[s.lastNodeVar]?.isSome
  newNodes : s'.newNodeVars = s.newNodeVars
  nodesKnown : ∀ x ∈ s.newNodeVars, s.kinds[x]?.isSome
  kinds : ∀ x, Visible x → s'.kinds[x]? = s.kinds[x]?
  rels : ∀ x, s.kinds[x]? = some .rel ↔ ∃ t ∈ slots, t.named = x
  rels' : ∀ x, s'.kinds[x]? = some .rel ↔ ∃ t ∈ slots, t.other = some x
  newRels : s.newRelVars = slots.filterMap fun t => t.rel.var
  newRels' : s'.newRelVars = slots.filterMap Slot.other
  nodup : (slots.filterMap Slot.other).Nodup
  counter : ∀ k, s.anonRelCounter ≤ k → s.kinds[pathRel k]? = none
  counter' : ∀ k, s'.anonRelCounter ≤ k → s'.kinds[anonRel k]? = none
  elements : s.elementVars = firstVar :: slots.flatMap fun t => [t.named, t.dst]
  slots : ∀ t ∈ slots, t.Fixed tracks

/-- What the two planners read and do not change. -/
structure TwinScopes (tracks : Bool) (scope scope' : PatternScope) : Prop where
  named : scope.isNamed = true
  named' : scope'.isNamed = false
  tracks' : scope'.tracksAnonymous = tracks
  bound : scope.bound = []
  bound' : scope'.bound = []
  optional : scope.optional = false
  optional' : scope'.optional = false

variable {tracks : Bool} {scope scope' : PatternScope} {params : Params} {firstVar : String} {slots : List Slot}
  {s s' : PatternPlan E.ch} {rel : RelPattern} {next : NodePattern}

/-- The names of a hop in the two plans, of which none is known yet. -/
structure HopNames (s s' : PatternPlan E.ch) (rel : RelPattern) (v v' : Option String × Nat) (rv : String) : Prop where
  named : v.1 = some rv
  fresh : s.kinds[rv]? = none
  fresh' : ∀ x, v'.1 = some x → s'.kinds[x]? = none
  visible : ∀ x, Visible x → (rv = x ↔ v'.1 = some x)
  counter : ∀ k, v.2 ≤ k → s.anonRelCounter ≤ k ∧ rv ≠ pathRel k
  counter' : ∀ k, v'.2 ≤ k → s'.anonRelCounter ≤ k ∧ v'.1 ≠ some (anonRel k)
  own : ∀ x, rel.var = some x → rv = x ∧ v'.1 = some x
  anonymous : rel.var = none → (∃ k, rv = pathRel k) ∧
    (v'.1 = none ∨ ∃ k, v'.1 = some (anonRel k))

theorem hopNames (hsc : TwinScopes tracks scope scope') (h : StateTwin E G params firstVar tracks slots s s')
    (hown : OwnNames rel.var) {v v' : Option String × Nat} (hv : relVarName scope s rel = .ok v)
    (hv' : relVarName scope' s' rel = .ok v') :
    (∃ rv, HopNames s s' rel v v' rv) ∧
      (rel.var = none → if tracks && rel.length.isNone then ∃ k, v'.1 = some (anonRel k) else v'.1 = none) := by
  rcases relVarName_cases hsc.bound hv with ⟨rv, hrv, hveq, hkind, hnew⟩ | ⟨hrv, hveq⟩
  · -- a variable of the pattern, which the planner would know only as the relationship before
    rcases relVarName_cases hsc.bound' hv' with ⟨rv', hrv', hveq', -, -⟩ | ⟨hrv', -⟩
    swap
    · rw [hrv] at hrv'
      cases hrv'
    cases Option.some.inj (hrv.symm.trans hrv')
    have hvis := not_isRelName_of_not_isInternal (hown rv hrv)
    have hfresh : s.kinds[rv]? = none := by
      refine hkind.resolve_right fun hk => hnew ?_
      obtain ⟨t, ht, htn⟩ := (h.rels rv).mp hk
      rw [h.newRels, List.mem_filterMap]
      refine ⟨t, ht, ?_⟩
      cases htv : t.rel.var with
      | some x => rw [← ((h.slots t ht).own x htv).2.1, htn]
      | none =>
        obtain ⟨⟨k, hk⟩, -⟩ := (h.slots t ht).anonymous htv
        rw [← htn, hk] at hvis
        exact absurd hvis (not_visible_pathRel k)
    refine ⟨⟨rv, ?_⟩, fun hnone => by rw [hrv] at hnone; cases hnone⟩
    rw [hveq, hveq']
    refine ⟨rfl, hfresh, ?_, fun x _ => Option.some.injEq _ _ ▸ Iff.rfl, ?_, ?_, ?_, ?_⟩
    · rintro x hx
      cases Option.some.inj hx
      rw [h.kinds rv hvis, hfresh]
    · intro k hk
      refine ⟨hk, ?_⟩
      rintro rfl
      exact not_visible_pathRel k hvis
    · intro k hk
      exact ⟨hk, fun he => not_visible_anonRel k (Option.some.inj he ▸ hvis)⟩
    · intro x hx
      cases Option.some.inj (hrv.symm.trans hx)
      exact ⟨rfl, rfl⟩
    · intro hnone
      rw [hrv] at hnone
      cases hnone
  · rcases relVarName_cases hsc.bound' hv' with ⟨rv', hrv', -⟩ | ⟨-, hveq'⟩
    · rw [hrv] at hrv'
      cases hrv'
    rw [if_pos hsc.named] at hveq
    rw [if_neg (by rw [hsc.named']; exact Bool.false_ne_true), hsc.tracks'] at hveq'
    have hown' : ∀ x, rel.var = some x → pathRel s.anonRelCounter = x ∧ v'.1 = some x := by
      intro x hx
      rw [hrv] at hx
      cases hx
    have hpath : ∀ x, Visible x → pathRel s.anonRelCounter ≠ x := by
      rintro x hx rfl
      exact not_visible_pathRel _ hx
    have hcount : ∀ k, s.anonRelCounter + 1 ≤ k → s.anonRelCounter ≤ k ∧ pathRel s.anonRelCounter ≠ pathRel k := by
      intro k hk
      exact ⟨by omega, fun he => by have := pathRel_injective he; omega⟩
    rw [hveq]
    split at hveq'
    · rename_i htr
      rw [hveq'] at hown' ⊢
      refine ⟨⟨pathRel s.anonRelCounter, ⟨rfl, h.counter _ (Nat.le_refl _), ?_, ?_, hcount, ?_, hown', ?_⟩⟩, ?_⟩
      · rintro x hx
        rw [← Option.some.inj hx]
        exact h.counter' _ (Nat.le_refl _)
      · intro x hx
        exact iff_of_false (hpath x hx) fun he => not_visible_anonRel _ (Option.some.inj he ▸ hx)
      · intro k hk
        refine ⟨Nat.le_of_succ_le hk, fun he => ?_⟩
        have := anonRel_injective (Option.some.inj he)
        have hk : s'.anonRelCounter + 1 ≤ k := hk
        omega
      · exact fun _ => ⟨⟨_, rfl⟩, .inr ⟨_, rfl⟩⟩
      · intro _
        rw [if_pos htr]
        exact ⟨_, rfl⟩
    · rename_i htr
      rw [hveq'] at hown' ⊢
      refine ⟨⟨pathRel s.anonRelCounter, ⟨rfl, h.counter _ (Nat.le_refl _), nofun, ?_, hcount, ?_, hown', ?_⟩⟩, ?_⟩
      · exact fun x hx => iff_of_false (hpath x hx) nofun
      · exact fun k hk => ⟨hk, nofun⟩
      · exact fun _ => ⟨⟨_, rfl⟩, .inl rfl⟩
      · intro _
        rw [if_neg htr]

/-- The variable of a fixed hop without a path is the one that the walks of the pattern leave out. -/
theorem fixedRelVar_eq (hnamed : scope.isNamed = false) (hbound : scope.bound = []) (hfixed : rel.length = none)
    {v : Option String × Nat} (hv : relVarName scope s rel = .ok v) :
    fixedRelVar false scope.tracksAnonymous s.anonRelCounter rel = v := by
  unfold fixedRelVar
  rw [hfixed]
  rcases relVarName_cases hbound hv with ⟨rv, hrv, hveq, -, -⟩ | ⟨hrv, hveq⟩
  · rw [hrv, hveq]
    rfl
  · rw [hrv, hveq, hnamed, hfixed]
    cases scope.tracksAnonymous <;> rfl

/-! ## A hop -/

/-- The kinds of the variables after a hop. -/
theorem get_hop_kinds (rel : RelPattern) {scope : PatternScope} {s : PatternPlan E.ch} (hbound : scope.bound = []) {relVar : Option String}
    (hfresh : ∀ x, relVar = some x → s.kinds[x]? = none) (counter : Nat) (dst x : String) :
    (enterNode scope (enterRel scope s rel relVar counter) dst).kinds[x]? =
      if dst ∉ s.newNodeVars ∧ dst = x then some .node else if relVar = some x then some .rel else s.kinds[x]? := by
  rw [get_enterNode_kinds, enterRel_newNodeVars, hbound, get_enterRel_kinds hfresh]
  simp only [List.not_mem_nil, not_false_eq_true, true_and, ite_and]

theorem hop_kinds_mono (rel : RelPattern) {scope : PatternScope} {s : PatternPlan E.ch} (hbound : scope.bound = []) {relVar : Option String}
    (hfresh : ∀ x, relVar = some x → s.kinds[x]? = none) (counter : Nat) (dst x : String) (hx : s.kinds[x]?.isSome) :
    (enterNode scope (enterRel scope s rel relVar counter) dst).kinds[x]?.isSome := by
  rw [get_hop_kinds rel hbound hfresh]
  split
  · rfl
  · split
    · rfl
    · exact hx

/-- The relationships after a hop whose node takes none of their variables. -/
theorem hop_kinds_rel (rel : RelPattern) {scope : PatternScope} {s : PatternPlan E.ch} (hbound : scope.bound = []) {relVar : Option String}
    (hfresh : ∀ x, relVar = some x → s.kinds[x]? = none) (counter : Nat) {dst : String}
    (hdst : relVar ≠ some dst ∧ s.kinds[dst]? ≠ some .rel) (x : String) :
    (enterNode scope (enterRel scope s rel relVar counter) dst).kinds[x]? = some .rel ↔
      relVar = some x ∨ s.kinds[x]? = some .rel := by
  rw [get_hop_kinds rel hbound hfresh]
  by_cases hx : dst = x
  · subst hx
    refine iff_of_false ?_ fun hc => hc.elim hdst.1 hdst.2
    split
    · exact nofun
    · rw [if_neg hdst.1]
      exact hdst.2
  · rw [if_neg fun hc => hx hc.2]
    split
    · exact iff_of_true rfl (.inl ‹_›)
    · exact ⟨.inr, fun hc => hc.resolve_left ‹_›⟩

/-- The node of a hop does not take the variable of a relationship. -/
theorem hopDst_ne_rel {scope : PatternScope} {s : PatternPlan E.ch} {i : Nat} {relVar : Option String}
    (hfresh : ∀ x, relVar = some x → s.kinds[x]? = none) {counter : Nat} {dst : String}
    (hdst : dst = nodeVar next ("_anon_n" ++ toString (i + 1)) (scope.bound ++ s.newNodeVars))
    (hck : checkNodeKind next dst (enterRel scope s rel relVar counter).kinds = .ok ())
    (hnames : ∀ r x, relVar = some x ∨ s.kinds[x]? = some .rel → x ≠ "_anon_n" ++ r) :
    relVar ≠ some dst ∧ s.kinds[dst]? ≠ some .rel := by
  cases hvar : next.var with
  | some x =>
    have hne := checkNodeKind_ne_rel hck (by rw [hvar]; rfl)
    rw [get_enterRel_kinds hfresh] at hne
    split at hne
    · exact absurd rfl hne
    · exact ⟨‹_›, hne⟩
  | none =>
    obtain ⟨r, hr⟩ := freshName_eq_append (scope.bound ++ s.newNodeVars).length (scope.bound ++ s.newNodeVars)
      ("_anon_n" ++ toString (i + 1))
    unfold nodeVar at hdst
    rw [hvar, Option.getD_none, hr, String.append_assoc] at hdst
    exact ⟨fun h => hnames _ dst (.inl h) hdst, fun h => hnames _ dst (.inr h) hdst⟩

theorem HopNames.ne_anonNode {v v' : Option String × Nat} {rv : String} (hn : HopNames s s' rel v v' rv)
    (hown : OwnNames rel.var) (r : String) : rv ≠ "_anon_n" ++ r ∧ v'.1 ≠ some ("_anon_n" ++ r) := by
  have hinternal : ∀ x, isRelName x = true → x ≠ "_anon_n" ++ r := by
    rintro x hx rfl
    rw [isRelName_anonNode] at hx
    cases hx
  cases hv : rel.var with
  | some x =>
    obtain ⟨hx, hx'⟩ := hn.own x hv
    rw [hx, hx']
    exact ⟨isInternal_eq_or_false (hown x hv) r, fun he => isInternal_eq_or_false (hown x hv) r (Option.some.inj he)⟩
  | none =>
    obtain ⟨⟨k, hk⟩, hother⟩ := hn.anonymous hv
    refine ⟨hk ▸ hinternal _ (isRelName_pathRel k), ?_⟩
    rcases hother with hother | ⟨k', hk'⟩
    · rw [hother]
      exact nofun
    · rw [hk']
      exact fun he => hinternal _ (isRelName_anonRel k') (Option.some.inj he)

/-- The variables of a hop and of its node are apart from each other and from those of the hops before. -/
structure HopApart (slots : List Slot) (s s' : PatternPlan E.ch) (v v' : Option String × Nat) (rv dst : String) : Prop where
  visible : Visible dst
  fresh : ∀ x, v.1 = some x → s.kinds[x]? = none
  dstNew : v.1 ≠ some dst ∧ s.kinds[dst]? ≠ some .rel
  dstNew' : v'.1 ≠ some dst ∧ s'.kinds[dst]? ≠ some .rel
  slots : ∀ t ∈ slots, t.named ≠ rv ∧ t.named ≠ dst ∧ ∀ x, t.other = some x → v'.1 ≠ some x ∧ x ≠ dst

theorem hopDst_twin (hsc : TwinScopes tracks scope scope') (h : StateTwin E G params firstVar tracks slots s s') (i : Nat)
    (next : NodePattern) : hopDst scope' i next s' = hopDst scope i next s := by
  unfold hopDst
  rw [hsc.bound, hsc.bound', h.newNodes]

theorem hopApart (hsc : TwinScopes tracks scope scope') (h : StateTwin E G params firstVar tracks slots s s')
    (hrel : OwnNames rel.var) (hnext : OwnNames next.var) {v v' : Option String × Nat} {rv : String}
    (hn : HopNames s s' rel v v' rv) {i : Nat}
    (hck : checkNodeKind next (hopDst scope i next s) (enterRel scope s rel v.1 v.2).kinds = .ok ())
    (hck' : checkNodeKind next (hopDst scope' i next s') (enterRel scope' s' rel v'.1 v'.2).kinds = .ok ()) :
    HopApart slots s s' v v' rv (hopDst scope i next s) := by
  have hfresh : ∀ x, v.1 = some x → s.kinds[x]? = none := fun x hx => by
    rw [← Option.some.inj (hn.named.symm.trans hx)]
    exact hn.fresh
  -- the node of the hop takes none of the variables of the relationships
  have hdst : v.1 ≠ some (hopDst scope i next s) ∧ s.kinds[hopDst scope i next s]? ≠ some .rel :=
    hopDst_ne_rel hfresh rfl hck fun r x hx => by
    rcases hx with hx | hx
    · rw [← Option.some.inj (hn.named.symm.trans hx)]
      exact (hn.ne_anonNode hrel r).1
    · obtain ⟨t, ht, rfl⟩ := (h.rels x).mp hx
      exact ((h.slots t ht).ne_anonNode r).1
  have hdst' : v'.1 ≠ some (hopDst scope' i next s') ∧ s'.kinds[hopDst scope' i next s']? ≠ some .rel :=
    hopDst_ne_rel hn.fresh' rfl hck' fun r x hx => by
    rcases hx with hx | hx
    · rintro rfl
      exact (hn.ne_anonNode hrel r).2 hx
    · obtain ⟨t, ht, hxt⟩ := (h.rels' x).mp hx
      rintro rfl
      exact ((h.slots t ht).ne_anonNode r).2 hxt
  rw [hopDst_twin hsc h] at hdst'
  refine ⟨visible_nodeVar hnext _ _, hfresh, hdst, hdst', fun t ht => ?_⟩
  have hkind := (h.rels t.named).mpr ⟨t, ht, rfl⟩
  refine ⟨?_, ?_, fun x hx => ⟨?_, ?_⟩⟩
  · intro he
    rw [he, hn.fresh] at hkind
    cases hkind
  · intro he
    exact hdst.2 (he ▸ hkind)
  · intro he
    have := (h.rels' x).mpr ⟨t, ht, hx⟩
    rw [hn.fresh' x he] at this
    cases this
  · rintro rfl
    exact hdst'.2 ((h.rels' _).mpr ⟨t, ht, hx⟩)

/-- A fixed hop keeps the states of the two planners together. -/
theorem planHop_twin (hsc : TwinScopes tracks scope scope') (h : StateTwin E G params firstVar tracks slots s s') {i : Nat}
    (hfixed : rel.length = none) (hrel : OwnNames rel.var) (hnext : OwnNames next.var)
    (hrelProps : ∀ p ∈ rel.properties, DependsOn E Visible p.2) (hnextProps : ∀ p ∈ next.properties, DependsOn E Visible p.2)
    {t t' : PatternPlan E.ch} (ht : planHop scope i rel next s = .ok t) (ht' : planHop scope' i rel next s' = .ok t') :
    ∃ slot, slot.rel = rel ∧ fixedRelVar false tracks s'.anonRelCounter rel = (slot.other, t'.anonRelCounter) ∧
      StateTwin E G params firstVar tracks (slots ++ [slot]) t t' := by
  obtain ⟨v, hv, hck, rfl⟩ := planHop_cases ht
  obtain ⟨v', hv', hck', rfl⟩ := planHop_cases ht'
  obtain ⟨⟨rv, hn⟩, htr⟩ := hopNames hsc h hrel hv hv'
  have hapart := hopApart hsc h hrel hnext hn hck hck'
  rw [hopDst_twin hsc h]
  generalize hopDst scope i next s = dst at hapart ⊢
  obtain ⟨hvis, hfresh, hdst, hdst', hslots⟩ := hapart
  have hkinds := get_hop_kinds rel hsc.bound hfresh v.2 dst
  have hkinds' := get_hop_kinds rel hsc.bound' hn.fresh' v'.2 dst
  have hknown : (enterNode scope (enterRel scope s rel v.1 v.2) dst).kinds[dst]?.isSome := by
    rw [hkinds]
    by_cases hmem : dst ∈ s.newNodeVars
    · rw [if_neg fun hc => hc.1 hmem, if_neg hdst.1]
      exact h.nodesKnown dst hmem
    · rw [if_pos ⟨hmem, rfl⟩]
      rfl
  have hsame : ∀ x, Visible x → (enterNode scope' (enterRel scope' s' rel v'.1 v'.2) dst).kinds[x]? =
      (enterNode scope (enterRel scope s rel v.1 v.2) dst).kinds[x]? := by
    intro x hx
    rw [hkinds, hkinds', h.newNodes, h.kinds x hx, hn.named]
    simp only [Option.some.injEq, hn.visible x hx]
  have hrels := hop_kinds_rel rel hsc.bound hfresh v.2 hdst
  have hrels' := hop_kinds_rel rel hsc.bound' hn.fresh' v'.2 hdst'
  have hops : TwinExpands (E := E) s.kinds s'.kinds
      ⟨s.lastNodeVar, v.1, dst, rel.relTypes, rel.direction, rel.properties, next.labels, next.properties, scope.optional, none⟩
      ⟨s'.lastNodeVar, v'.1, dst, rel.relTypes, rel.direction, rel.properties, next.labels, next.properties, scope'.optional,
        none⟩ :=
    ⟨by rw [h.last, hsc.optional, hsc.optional'], hsc.optional, h.lastVisible, hvis, hnextProps, hrelProps, hfresh,
      hn.fresh', fun x hx => by simp only [hn.named, Option.some.injEq, hn.visible x hx]⟩
  have hfixedSlot : Slot.Fixed tracks ⟨rel, rv, v'.1, dst⟩ := by
    refine ⟨hfixed, fun x hx => ⟨hrel x hx, hn.own x hx⟩, fun hx => ⟨(hn.anonymous hx).1, ?_⟩⟩
    have := htr hx
    rw [hfixed, Option.isNone_none, Bool.and_true] at this
    exact this
  refine ⟨⟨rel, rv, v'.1, dst⟩, rfl, ?_, ?_⟩
  · rw [← hsc.tracks', fixedRelVar_eq hsc.named' hsc.bound' hfixed hv']
    exact congrArg (v'.1, ·) (enterRel_anonRelCounter v'.1 v'.2).symm
  constructor
  case rows =>
    unfold planRel
    simp only [hfixed]
    refine h.rows.bind fun rows rows' hrows => ?_
    refine execExpand_twin hops hn.named hslots (hop_kinds_mono rel hsc.bound hfresh v.2 dst)
      (hop_kinds_mono rel hsc.bound' hn.fresh' v'.2 dst) ⟨hknown, (hsame dst hvis).symm ▸ hknown⟩ ?_ ?_ hrows params rel
    · rw [(hrels rv).mpr (.inl hn.named)]
      rfl
    · intro x hx
      rw [(hrels' x).mpr (.inl hx)]
      rfl
  case last => rfl
  case lastVisible => exact hvis
  case lastKnown => exact hknown
  case newNodes =>
    change (enterNode scope' _ dst).newNodeVars = (enterNode scope _ dst).newNodeVars
    rw [enterNode_newNodeVars hsc.bound', enterNode_newNodeVars hsc.bound, enterRel_newNodeVars, enterRel_newNodeVars,
      h.newNodes]
  case nodesKnown =>
    intro x hx
    change x ∈ (enterNode scope _ dst).newNodeVars at hx
    rw [enterNode_newNodeVars hsc.bound, enterRel_newNodeVars] at hx
    rcases List.mem_append.mp hx with hx | hx
    · exact hop_kinds_mono rel hsc.bound hfresh v.2 dst x (h.nodesKnown x hx)
    · split at hx
      · rw [List.mem_singleton.mp hx]
        exact hknown
      · cases hx
  case kinds => exact hsame
  case rels =>
    intro x
    refine (hrels x).trans ?_
    rw [h.rels, hn.named, Option.some.injEq, or_comm]
    simp only [List.mem_append, List.mem_singleton, or_and_right, exists_or, exists_eq_left]
  case rels' =>
    intro x
    refine (hrels' x).trans ?_
    rw [h.rels', or_comm]
    simp only [List.mem_append, List.mem_singleton, or_and_right, exists_or, exists_eq_left]
  case newRels =>
    change (enterRel scope s rel v.1 v.2).newRelVars = _
    rw [enterRel_newRelVars hfresh, List.filterMap_append, h.newRels, hn.named]
    refine congrArg _ ?_
    cases hx : rel.var with
    | some x => simp [hx, (hn.own x hx).1]
    | none =>
      obtain ⟨k, hk⟩ := (hn.anonymous hx).1
      simp [hx, hk, startsWith_anonRel_pathRel]
  case newRels' =>
    change (enterRel scope' s' rel v'.1 v'.2).newRelVars = _
    rw [enterRel_newRelVars hn.fresh', List.filterMap_append, h.newRels']
    refine congrArg _ ?_
    cases hx : rel.var with
    | some x => simp [(hn.own x hx).2]
    | none =>
      rcases (hn.anonymous hx).2 with hnone | ⟨k, hk⟩
      · simp [hnone]
      · simp [hk, anonRel, startsWith_append]
  case nodup =>
    rw [List.filterMap_append, List.nodup_append]
    refine ⟨h.nodup, ?_, ?_⟩
    · cases v'.1 with
      | none => exact List.nodup_nil
      | some x => exact List.nodup_singleton x
    · intro x hx y hy
      obtain ⟨t, ht, htx⟩ := List.mem_filterMap.mp hx
      obtain ⟨t', ht', hty⟩ := List.mem_filterMap.mp hy
      rw [List.mem_singleton.mp ht'] at hty
      rintro rfl
      exact ((hslots t ht).2.2 x htx).1 hty
  case counter =>
    intro k hk
    change (enterRel scope s rel v.1 v.2).anonRelCounter ≤ k at hk
    rw [enterRel_anonRelCounter] at hk
    change (enterNode scope (enterRel scope s rel v.1 v.2) dst).kinds[pathRel k]? = none
    have hne : dst ≠ pathRel k := fun he => not_visible_pathRel k (he ▸ hvis)
    have hne' : v.1 ≠ some (pathRel k) := fun he => (hn.counter k hk).2 (Option.some.inj (hn.named.symm.trans he))
    rw [hkinds, if_neg fun hc => hne hc.2, if_neg hne', h.counter k (hn.counter k hk).1]
  case counter' =>
    intro k hk
    change (enterRel scope' s' rel v'.1 v'.2).anonRelCounter ≤ k at hk
    rw [enterRel_anonRelCounter] at hk
    change (enterNode scope' (enterRel scope' s' rel v'.1 v'.2) dst).kinds[anonRel k]? = none
    have hne : dst ≠ anonRel k := fun he => not_visible_anonRel k (he ▸ hvis)
    rw [hkinds', if_neg fun hc => hne hc.2, if_neg (hn.counter' k hk).2, h.counter' k (hn.counter' k hk).1]
  case elements =>
    change (enterRel scope s rel v.1 v.2).elementVars ++ (if scope.isNamed then [dst] else []) = _
    rw [hn.named, enterRel_elementVars hsc.named, if_pos hsc.named, h.elements, List.flatMap_append]
    simp [elementRelVar, hfixed]
  case slots =>
    intro t ht
    rcases List.mem_append.mp ht with ht | ht
    · exact h.slots t ht
    · rw [List.mem_singleton.mp ht]
      exact hfixedSlot

end PgEddy
