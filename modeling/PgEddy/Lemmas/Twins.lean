import PgEddy.Lemmas.Dependence
import PgEddy.Lemmas.Hops
import PgEddy.Lemmas.Names
import PgEddy.Lib.Related

/-!
# A pattern planned with and without a path

The planner makes different names for the anonymous relationships of a pattern when the pattern is named and when it is not.
Here the two plans are followed hop by hop: their rows agree on every other variable, and under the names of the relationships
they bind the same relationships, as long as every hop is a fixed one.
-/

namespace PgEddy

open RowAux Related

variable {E : Engine} {G : Graph}

/-- The variables that the planner does not make for relationships. -/
abbrev Visible (x : String) : Prop := isRelName x = false

theorem not_visible_pathRel (k : Nat) : ¬Visible (pathRel k) := fun h => Bool.false_ne_true (h.symm.trans (isRelName_pathRel k))

theorem not_visible_anonRel (k : Nat) : ¬Visible (anonRel k) := fun h => Bool.false_ne_true (h.symm.trans (isRelName_anonRel k))

/-- A relationship of a pattern, with its variable in the plan of the named pattern, its variable, if it has one, in the plan of
the other, and the variable of the node after it. -/
structure Slot where
  rel : RelPattern
  named : String
  other : Option String
  dst : String

/-- Rows of the two plans. -/
structure RowTwin (slots : List Slot) (row row' : E.Row) : Prop where
  agree : AgreeOn Visible row row'
  edges : ∃ edgeIds : List Int64,
    List.Forall₂ (fun s e => Binds row s.named e ∧ ∀ x, s.other = some x → Binds row' x e) slots edgeIds

/-- The planner knows every variable of the row. -/
def Known (kinds : VarKinds) (row : E.Row) : Prop := ∀ x : String, row[x]?.isSome → kinds[x]?.isSome

namespace TwinAux

theorem forall₂_zipWith_flatten {α α' β γ γ' : Type} {P : α → α' → Prop} {Q : γ → γ' → Prop} {f : α → β → List γ}
    {f' : α' → β → List γ'} (hf : ∀ a a' b, P a a' → List.Forall₂ Q (f a b) (f' a' b)) {as : List α} {as' : List α'}
    (h : List.Forall₂ P as as') (bs : List β) :
    List.Forall₂ Q (List.zipWith f as bs).flatten (List.zipWith f' as' bs).flatten := by
  induction h generalizing bs with
  | nil => exact .nil
  | cons ha _ ih =>
    cases bs with
    | nil => exact .nil
    | cons b bs =>
      simp only [List.zipWith_cons_cons, List.flatten_cons]
      exact List.rel_append (hf _ _ b ha) (ih bs)

theorem map_eq_of_forall₂ {α α' β : Type} {P : α → α' → Prop} {f : α → β} {f' : α' → β} (hf : ∀ a a', P a a' → f a = f' a')
    {as : List α} {as' : List α'} (h : List.Forall₂ P as as') : as.map f = as'.map f' := by
  induction h with
  | nil => rfl
  | cons ha _ ih => rw [List.map_cons, List.map_cons, hf _ _ ha, ih]

end TwinAux

open TwinAux

/-- Two expansions that differ only in the variable of their relationship, which neither plan knows yet. -/
structure TwinExpands (kinds kinds' : VarKinds) (op op' : Expand) : Prop where
  same : op' = { op with relVar := op'.relVar }
  notOptional : op.optional = false
  src : Visible op.srcVar
  dst : Visible op.dstVar
  dstProps : ∀ p ∈ op.dstProps, DependsOn E Visible p.2
  relProps : ∀ p ∈ op.relProps, DependsOn E Visible p.2
  fresh : ∀ x, op.relVar = some x → kinds[x]? = none
  fresh' : ∀ x, op'.relVar = some x → kinds'[x]? = none
  visible : ∀ x, Visible x → (op.relVar = some x ↔ op'.relVar = some x)

theorem existingRel_fresh {kinds : VarKinds} {op : Expand} (hfresh : ∀ x, op.relVar = some x → kinds[x]? = none)
    {row : E.Row} (hk : Known kinds row) : (op.relVar.bind fun rv => row[rv]?) = none := by
  cases hv : op.relVar with
  | none => rfl
  | some rv =>
    have := hk rv
    rw [hfresh rv hv] at this
    cases hr : row[rv]? with
    | none => simpa using hr
    | some v => simp [hr] at this

/-- The two expansions read the same in rows that agree. -/
theorem hopView_twin {kinds kinds' : VarKinds} {op op' : Expand} (h : TwinExpands (E := E) kinds kinds' op op')
    {row row' : E.Row} (ha : AgreeOn Visible row row') (hk : Known kinds row) (hk' : Known kinds' row') (params : Params) :
    hopView E op' params row' = hopView E op params row := by
  have hrel := existingRel_fresh h.fresh hk
  have hrel' := existingRel_fresh h.fresh' hk'
  unfold hopView
  rw [hrel, hrel', h.same]
  simp only [HopView.mk.injEq]
  refine ⟨(ha.lookupVar params h.src).symm, ?_, ?_, trivial, (ha.boundDst params h.dst).symm⟩
  · exact funext fun val => (propsMatch_congr h.dstProps ha val params).symm
  · exact funext fun val => (propsMatch_congr h.relProps ha val params).symm

theorem get_hitRow (op : Expand) (row : E.Row) (src : E.Value) (hit : Hit E) (x : String) :
    (hitRow op row src hit)[x]? =
      if op.relVar = some x then some (hit.edge.value E)
      else if op.dstVar = x then some hit.dst
      else if op.srcVar = x ∧ row[op.srcVar]? = none then some src
      else row[x]? := by
  unfold hitRow
  rw [get_insertOpt, get_insert, get_orInsert]

/-- A hop keeps the rows of the two plans together. -/
theorem rowTwin_hit {kinds kinds' : VarKinds} {op op' : Expand} (h : TwinExpands (E := E) kinds kinds' op op')
    {slots : List Slot} {row row' : E.Row} (hr : RowTwin slots row row') {rv : String} (hrv : op.relVar = some rv)
    (hsrc : row[op.srcVar]?.isSome)
    (hslots : ∀ s ∈ slots, s.named ≠ rv ∧ s.named ≠ op.dstVar ∧
      ∀ x, s.other = some x → op'.relVar ≠ some x ∧ x ≠ op.dstVar) (rel : RelPattern) (src : E.Value) (hit : Hit E) :
    RowTwin (slots ++ [⟨rel, rv, op'.relVar, op.dstVar⟩]) (hitRow op row src hit) (hitRow op' row' src hit) := by
  have hdst : op'.dstVar = op.dstVar := by rw [h.same]
  have hsv : op'.srcVar = op.srcVar := by rw [h.same]
  have hsrc' : row'[op.srcVar]?.isSome := by rw [← hr.agree _ h.src]; exact hsrc
  have hbound : ∀ {r : E.Row}, r[op.srcVar]?.isSome → ∀ x, ¬(op.srcVar = x ∧ r[op.srcVar]? = none) := by
    intro r hs x hx
    rw [hx.2] at hs
    exact absurd hs (by simp)
  constructor
  · intro x hx
    rw [get_hitRow, get_hitRow, hdst, hsv, if_neg (hbound hsrc x), if_neg (hbound hsrc' x), hr.agree x hx]
    by_cases hrel : op.relVar = some x
    · rw [if_pos hrel, if_pos ((h.visible x hx).mp hrel)]
    · rw [if_neg hrel, if_neg (fun h' => hrel ((h.visible x hx).mpr h'))]
  · obtain ⟨edgeIds, hes⟩ := hr.edges
    refine ⟨edgeIds ++ [hit.edge.edgeId], List.rel_append ?_ (.cons ⟨?_, ?_⟩ .nil)⟩
    · -- the hop sets none of the variables of the relationships before it
      refine ((List.forall₂_and_left _ _).mpr ⟨hslots, hes⟩).imp ?_
      rintro s e ⟨⟨hne, hned, hother⟩, ⟨v, hv, he⟩, hbinds⟩
      have hold : (hitRow op row src hit)[s.named]? = row[s.named]? := by
        rw [get_hitRow, if_neg (fun h' => hne (Option.some.inj (h'.symm.trans hrv))), if_neg (Ne.symm hned),
          if_neg (hbound hsrc _)]
      refine ⟨⟨v, hold.trans hv, he⟩, fun x hx => ?_⟩
      obtain ⟨v', hv', he'⟩ := hbinds x hx
      have hold' : (hitRow op' row' src hit)[x]? = row'[x]? := by
        rw [get_hitRow, hdst, hsv, if_neg (hother x hx).1, if_neg (Ne.symm (hother x hx).2), if_neg (hbound hsrc' _)]
      exact ⟨v', hold'.trans hv', he'⟩
    · exact ⟨hit.edge.value E, by rw [get_hitRow, if_pos hrv], rfl⟩
    · intro x hx
      exact ⟨hit.edge.value E, by rw [get_hitRow, if_pos hx], rfl⟩

theorem Known.hitRow {kinds kinds₂ : VarKinds} {op : Expand} {row : E.Row} (hk : Known kinds row)
    (hkinds : ∀ x : String, kinds[x]?.isSome → kinds₂[x]?.isSome) (hsrc : kinds[op.srcVar]?.isSome)
    (hdst : kinds₂[op.dstVar]?.isSome) (hrel : ∀ x, op.relVar = some x → kinds₂[x]?.isSome) (src : E.Value) (hit : Hit E) :
    Known kinds₂ (PgEddy.hitRow op row src hit) := by
  intro x hx
  rw [get_hitRow] at hx
  split at hx
  · exact hrel x ‹_›
  · split at hx
    · rename_i h
      exact h ▸ hdst
    · split at hx
      · rename_i h
        exact h.1 ▸ hkinds _ hsrc
      · exact hkinds x (hk x hx)

/-- The rows of the two plans after the hops so far, the last of which led to a node. -/
structure RowsTwin (slots : List Slot) (kinds kinds' : VarKinds) (last : String) (row row' : E.Row) : Prop where
  twin : RowTwin slots row row'
  known : Known kinds row
  known' : Known kinds' row'
  last : row[last]?.isSome

/-- A hop keeps the rows of the two plans together. -/
theorem execExpand_twin {kinds kinds' kinds₂ kinds₂' : VarKinds} {op op' : Expand}
    (h : TwinExpands (E := E) kinds kinds' op op') {rv : String} (hrv : op.relVar = some rv) {slots : List Slot}
    (hslots : ∀ s ∈ slots, s.named ≠ rv ∧ s.named ≠ op.dstVar ∧
      ∀ x, s.other = some x → op'.relVar ≠ some x ∧ x ≠ op.dstVar)
    (hkinds : ∀ x : String, kinds[x]?.isSome → kinds₂[x]?.isSome)
    (hkinds' : ∀ x : String, kinds'[x]?.isSome → kinds₂'[x]?.isSome)
    (hdst : kinds₂[op.dstVar]?.isSome ∧ kinds₂'[op.dstVar]?.isSome) (hrel : kinds₂[rv]?.isSome)
    (hrel' : ∀ x, op'.relVar = some x → kinds₂'[x]?.isSome) {rows rows' : List E.Row}
    (hrows : List.Forall₂ (RowsTwin slots kinds kinds' op.srcVar) rows rows') (params : Params) (rel : RelPattern) :
    Both (List.Forall₂ (RowsTwin (slots ++ [⟨rel, rv, op'.relVar, op.dstVar⟩]) kinds₂ kinds₂' op.dstVar))
      (execExpand E G op rows params) (execExpand E G op' rows' params) := by
  have hopt' : op'.optional = false := by rw [h.same]; exact h.notOptional
  have hshape : op'.shape = op.shape := by rw [h.same]; rfl
  have hsv : op'.srcVar = op.srcVar := by rw [h.same]
  have hdv : op'.dstVar = op.dstVar := by rw [h.same]
  have hviews : rows.map (hopView E op params) = rows'.map (hopView E op' params) :=
    map_eq_of_forall₂ (fun r r' hr => (hopView_twin h hr.twin.agree hr.known hr.known' params).symm) hrows
  have hlab : dstLabelUnsatisfiable G op' = dstLabelUnsatisfiable G op := by rw [h.same]; rfl
  rw [execExpand_eq G h.notOptional, execExpand_eq G hopt', hlab, hsv, hshape, ← hviews]
  split
  · exact .ok .nil
  · refine (both_refl _).bind ?_
    rintro hs _ rfl
    refine .ok (forall₂_zipWith_flatten ?_ hrows hs)
    intro r r' hit hr
    cases hit with
    | nullSrc => simp only [hitRows, h.notOptional, hopt', Bool.false_eq_true, ↓reduceIte, List.Forall₂.nil]
    | notNode => exact .nil
    | hits src hits =>
      simp only [hitRows, h.notOptional, hopt', Bool.false_and, Bool.false_eq_true, ↓reduceIte]
      rw [List.forall₂_map_left_iff, List.forall₂_map_right_iff, List.forall₂_same]
      intro hit _
      refine ⟨rowTwin_hit h hr.twin hrv hr.last hslots rel src hit, ?_, ?_, ?_⟩
      · exact hr.known.hitRow hkinds (hr.known _ hr.last) hdst.1
          (fun x hx => Option.some.inj (hrv.symm.trans hx) ▸ hrel) src hit
      · have hlast' : r'[op'.srcVar]?.isSome := by rw [hsv, ← hr.twin.agree _ h.src]; exact hr.last
        exact hr.known'.hitRow hkinds' (hr.known' _ hlast') (hdv ▸ hdst.2) hrel' src hit
      · rw [get_hitRow]
        split
        · rfl
        · rw [if_pos rfl]
          rfl

end PgEddy
