import Mathlib.Tactic.Common

/-!
# Comparisons that follow on from each other

A comparison `cmp` chains from `a` over `b` to `c` if, when it goes up or stays level twice, what it says of the ends is what it
says of the first step that does not stay level. Chaining is transitivity in the form that lexicographic comparisons keep.
-/

namespace Chained

variable {α β : Type}

/-- Neither step goes down: the ends compare as the first step that is not level. -/
def Chains (cmp : α → α → Ordering) (a b c : α) : Prop :=
  (cmp a b).isLE → (cmp b c).isLE → cmp a c = (cmp a b).then (cmp b c)

/-- Turning the arguments round turns the answer round among the values of a set. -/
def OrientedOn (S : α → Prop) (cmp : α → α → Ordering) : Prop := ∀ a b, S a → S b → cmp b a = (cmp a b).swap

/-- The comparison is transitive among the values of a set. -/
def TransOn (S : α → Prop) (cmp : α → α → Ordering) : Prop :=
  ∀ a b c, S a → S b → S c → (cmp a b).isLE → (cmp b c).isLE → (cmp a c).isLE

variable {cmp : α → α → Ordering} {S : α → Prop}

theorem isLE_then {o p : Ordering} (ho : o.isLE) (hp : p.isLE) : (o.then p).isLE := by
  cases o with
  | lt => rfl
  | eq => exact hp
  | gt => cases ho

/-- A transitive comparison chains among the values of the set. -/
theorem TransOn.chains (ht : TransOn S cmp) (ho : OrientedOn S cmp) {a b c : α} (ha : S a) (hb : S b) (hc : S c) :
    Chains cmp a b c := by
  intro hab hbc
  have hac := ht a b c ha hb hc hab hbc
  have hcb : (cmp c b).isGE := by
    rw [ho b c hb hc]
    cases h : cmp b c <;> rw [h] at hbc <;> first | rfl | cases hbc
  cases hfirst : cmp a b with
  | gt => rw [hfirst] at hab; cases hab
  | lt =>
    -- If the ends were level, the way back over `c` would go from `b` up to `a`.
    cases hends : cmp a c with
    | lt => rfl
    | gt => rw [hends] at hac; cases hac
    | eq =>
      have hca : (cmp c a).isLE := by rw [ho a c ha hc, hends]; rfl
      have hba := ht b c a hb hc ha hbc hca
      rw [ho a b ha hb, hfirst] at hba
      cases hba
  | eq =>
    change cmp a c = cmp b c
    have hba : (cmp b a).isLE := by rw [ho a b ha hb, hfirst]; rfl
    cases hends : cmp a c with
    | gt => rw [hends] at hac; cases hac
    | lt =>
      cases hlast : cmp b c with
      | lt => rfl
      | gt => rw [hlast] at hbc; cases hbc
      | eq =>
        have hcb : (cmp c b).isLE := by rw [ho b c hb hc, hlast]; rfl
        have hca := ht c b a hc hb ha hcb hba
        rw [ho a c ha hc, hends] at hca
        cases hca
    | eq =>
      cases hlast : cmp b c with
      | eq => rfl
      | gt => rw [hlast] at hbc; cases hbc
      | lt =>
        have hca : (cmp c a).isLE := by rw [ho a c ha hc, hends]; rfl
        have hcb := ht c a b hc ha hb hca (by rw [hfirst]; rfl)
        rw [ho b c hb hc, hlast] at hcb
        cases hcb

/-- Where each three values chain, the comparison is transitive. -/
theorem transOn_of_chains (h : ∀ a b c, S a → S b → S c → Chains cmp a b c) : TransOn S cmp := by
  intro a b c ha hb hc hab hbc
  rw [h a b c ha hb hc hab hbc]
  exact isLE_then hab hbc

/-- Comparisons made of two, the second for what is level in the first, chain where both do. -/
theorem chain_then {p q r p' q' r' : Ordering} (h : p.isLE → q.isLE → r = p.then q)
    (h' : p = .eq → q = .eq → p'.isLE → q'.isLE → r' = p'.then q') (hp : (p.then p').isLE) (hq : (q.then q').isLE) :
    r.then r' = (p.then p').then (q.then q') := by
  cases p with
  | gt => cases hp
  | lt =>
    have hqle : q.isLE := by
      cases q with
      | lt => rfl
      | eq => rfl
      | gt => cases hq
    rw [h rfl hqle]
    rfl
  | eq =>
    cases q with
    | gt => cases hq
    | lt =>
      rw [h rfl rfl]
      cases p' with
      | gt => cases hp
      | lt => rfl
      | eq => rfl
    | eq =>
      rw [h rfl rfl]
      exact h' rfl rfl hp hq

/-- A comparison by a key chains. -/
theorem chains_key (key : α → β) [Ord β] [Std.TransOrd β] (a b c : α) :
    Chains (fun x y => compare (key x) (key y)) a b c := by
  have htrans : TransOn (fun _ : β => True) compare := fun x y z _ _ _ => Std.TransCmp.isLE_trans
  exact htrans.chains (fun x y _ _ => Std.OrientedCmp.eq_swap) (a := key a) (b := key b) (c := key c) trivial trivial trivial

/-- A comparison by a key, and then by another comparison, chains where the other one does for values of one key. -/
theorem chains_lex (key : α → Nat) {a b c : α} (h : key a = key b → key b = key c → Chains cmp a b c) :
    Chains (fun x y => (compare (key x) (key y)).then (cmp x y)) a b c := by
  intro hab hbc
  beta_reduce at hab hbc ⊢
  have hle : ∀ {x y : α}, ((compare (key x) (key y)).then (cmp x y)).isLE → key x ≤ key y := by
    intro x y hxy
    by_contra hlt
    rw [Nat.compare_eq_gt.mpr (Nat.lt_of_not_le hlt)] at hxy
    cases hxy
  have hkab := hle hab
  have hkbc := hle hbc
  by_cases hkab' : key a = key b
  · by_cases hkbc' : key b = key c
    · have heq : ∀ {x y : α}, key x = key y → (compare (key x) (key y)).then (cmp x y) = cmp x y := by
        intro x y hxy
        rw [Nat.compare_eq_eq.mpr hxy]
        rfl
      rw [heq hkab'] at hab ⊢
      rw [heq hkbc'] at hbc ⊢
      rw [heq (hkab'.trans hkbc')]
      exact h hkab' hkbc' hab hbc
    · have hlt : key b < key c := Nat.lt_of_le_of_ne hkbc hkbc'
      rw [Nat.compare_eq_lt.mpr hlt, Nat.compare_eq_lt.mpr (hkab' ▸ hlt), Nat.compare_eq_eq.mpr hkab']
      change Ordering.lt = (cmp a b).then .lt
      rw [Nat.compare_eq_eq.mpr hkab'] at hab
      cases hcmp : cmp a b with
      | lt => rfl
      | eq => rfl
      | gt => rw [hcmp] at hab; cases hab
  · have hlt : key a < key b := Nat.lt_of_le_of_ne hkab hkab'
    rw [Nat.compare_eq_lt.mpr hlt, Nat.compare_eq_lt.mpr (Nat.lt_of_lt_of_le hlt hkbc)]
    rfl

end Chained
