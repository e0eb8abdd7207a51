import Mathlib.Data.List.Forall2
import Mathlib.Control.Monad.Basic

/-!
# Two computations that fail alike

Two runs of fallible computations correspond when both fail with the same failure, or both return and their results
correspond. Here: how the correspondence passes through the operations that programs are built from. The second run may also
leave out some of the items of a list that the first run has (`Thinned`).
-/

namespace Related

variable {ε α β γ δ : Type}

/-- Both fail alike, or both return results in a relation. -/
inductive Both (R : α → β → Prop) : Except ε α → Except ε β → Prop
  | ok {a : α} {b : β} : R a b → Both R (.ok a) (.ok b)
  | error (e : ε) : Both R (.error e) (.error e)

variable {R : α → β → Prop} {S : γ → δ → Prop}

theorem Both.mono {R' : α → β → Prop} {x : Except ε α} {y : Except ε β} (h : Both R x y) (hR : ∀ a b, R a b → R' a b) :
    Both R' x y := by
  cases h with
  | ok hab => exact .ok (hR _ _ hab)
  | error e => exact .error e

/-- Results that both runs return are in the relation. -/
theorem Both.of_ok {a : α} {b : β} (h : Both R (.ok a : Except ε α) (.ok b)) : R a b := by
  cases h with
  | ok hab => exact hab

theorem both_refl (x : Except ε α) : Both Eq x x := by
  cases x with
  | ok a => exact .ok rfl
  | error e => exact .error e

theorem both_eq_iff {x y : Except ε α} : Both Eq x y ↔ x = y := by
  constructor
  · intro h
    cases h with
    | ok hab => rw [hab]
    | error e => rfl
  · rintro rfl
    exact both_refl x

theorem Both.bind {x : Except ε α} {y : Except ε β} {f : α → Except ε γ} {g : β → Except ε δ} (h : Both R x y)
    (hf : ∀ a b, R a b → Both S (f a) (g b)) : Both S (x >>= f) (y >>= g) := by
  cases h with
  | ok hab => exact hf _ _ hab
  | error e => exact .error e

theorem Both.map {x : Except ε α} {y : Except ε β} {f : α → γ} {g : β → δ} (h : Both R x y)
    (hf : ∀ a b, R a b → S (f a) (g b)) : Both S (f <$> x) (g <$> y) := by
  cases h with
  | ok hab => exact .ok (hf _ _ hab)
  | error e => exact .error e

theorem both_mapM {xs : List α} {ys : List β} {f : α → Except ε γ} {g : β → Except ε δ} (h : List.Forall₂ R xs ys)
    (hf : ∀ a b, R a b → Both S (f a) (g b)) : Both (List.Forall₂ S) (xs.mapM f) (ys.mapM g) := by
  induction h with
  | nil => exact .ok .nil
  | cons hab _ ih =>
    simp only [List.mapM_cons]
    exact (hf _ _ hab).bind fun c d hcd => ih.bind fun cs ds hcds => .ok (.cons hcd hcds)

/-- Items kept or dropped alike, or kept as results in a relation. -/
theorem both_filterMapM {xs : List α} {ys : List β} {f : α → Except ε (Option γ)} {g : β → Except ε (Option δ)}
    (h : List.Forall₂ R xs ys) (hf : ∀ a b, R a b → Both (Option.Rel S) (f a) (g b)) :
    Both (List.Forall₂ S) (xs.filterMapM f) (ys.filterMapM g) := by
  induction h with
  | nil => exact .ok .nil
  | cons hab _ ih =>
    rw [List.filterMapM_cons, List.filterMapM_cons]
    refine (hf _ _ hab).bind fun c? d? hcd => ?_
    cases hcd with
    | none => exact ih
    | some hcd => exact ih.bind fun cs ds hcds => .ok (.cons hcd hcds)

/-! ## Lists with items left out -/

/-- The second list corresponds to the first without some of its items, of which each has a property. -/
inductive Thinned (R : α → β → Prop) (D : α → Prop) : List α → List β → Prop
  | nil : Thinned R D [] []
  | keep {a : α} {b : β} {as : List α} {bs : List β} : R a b → Thinned R D as bs → Thinned R D (a :: as) (b :: bs)
  | drop {a : α} {as : List α} {bs : List β} : D a → Thinned R D as bs → Thinned R D (a :: as) bs

variable {D : α → Prop} {D' : γ → Prop}

theorem Thinned.of_forall₂ {as : List α} {bs : List β} (h : List.Forall₂ R as bs) : Thinned R D as bs := by
  induction h with
  | nil => exact .nil
  | cons hab _ ih => exact .keep hab ih

theorem Thinned.append {as as' : List α} {bs bs' : List β} (h : Thinned R D as bs) (h' : Thinned R D as' bs') :
    Thinned R D (as ++ as') (bs ++ bs') := by
  induction h with
  | nil => exact h'
  | keep hab _ ih => exact .keep hab ih
  | drop ha _ ih => exact .drop ha ih

theorem Thinned.flatten {ass : List (List α)} {bss : List (List β)} (h : List.Forall₂ (Thinned R D) ass bss) :
    Thinned R D ass.flatten bss.flatten := by
  induction h with
  | nil => exact .nil
  | cons hab _ ih => exact hab.append ih

theorem Thinned.mem_left {as : List α} {bs : List β} (h : Thinned R D as bs) {a : α} (ha : a ∈ as) :
    (∃ b ∈ bs, R a b) ∨ D a := by
  induction h with
  | nil => cases ha
  | keep hab _ ih =>
    rcases List.mem_cons.mp ha with rfl | ha
    · exact .inl ⟨_, List.mem_cons_self, hab⟩
    · exact (ih ha).imp_left fun ⟨b, hb, hr⟩ => ⟨b, List.mem_cons_of_mem _ hb, hr⟩
  | drop hd _ ih =>
    rcases List.mem_cons.mp ha with rfl | ha
    · exact .inr hd
    · exact ih ha

theorem Thinned.mem_right {as : List α} {bs : List β} (h : Thinned R D as bs) {b : β} (hb : b ∈ bs) : ∃ a ∈ as, R a b := by
  induction h with
  | nil => cases hb
  | keep hab _ ih =>
    rcases List.mem_cons.mp hb with rfl | hb
    · exact ⟨_, List.mem_cons_self, hab⟩
    · obtain ⟨a, ha, hr⟩ := ih hb
      exact ⟨a, List.mem_cons_of_mem _ ha, hr⟩
  | drop _ _ ih =>
    obtain ⟨a, ha, hr⟩ := ih hb
    exact ⟨a, List.mem_cons_of_mem _ ha, hr⟩

/-- Items that are left out do not pass, the others pass alike. -/
theorem Thinned.filterMap {as : List α} {bs : List β} (h : Thinned R D as bs) {f : α → Option γ} {g : β → Option δ}
    (hR : ∀ a b, R a b → Option.Rel S (f a) (g b)) (hD : ∀ a, D a → f a = none) :
    List.Forall₂ S (as.filterMap f) (bs.filterMap g) := by
  induction h with
  | nil => exact .nil
  | @keep a b as bs hab _ ih =>
    rw [List.filterMap_cons, List.filterMap_cons]
    have hrel := hR a b hab
    cases hfa : f a with
    | none =>
      rw [hfa] at hrel
      cases hgb : g b with
      | none => exact ih
      | some d => rw [hgb] at hrel; cases hrel
    | some c =>
      rw [hfa] at hrel
      cases hgb : g b with
      | none => rw [hgb] at hrel; cases hrel
      | some d =>
        rw [hgb] at hrel
        cases hrel with
        | some hcd => exact .cons hcd ih
  | @drop a as bs ha _ ih =>
    rw [List.filterMap_cons, hD a ha]
    exact ih

/-- If the first run passes all its items, the second passes its own, and what is left out stays left out. -/
theorem Thinned.filterMapM {xs : List α} {ys : List β} (h : Thinned R D xs ys) {f : α → Except ε (Option γ)}
    {g : β → Except ε (Option δ)} (hR : ∀ a b, R a b → Both (Option.Rel S) (f a) (g b))
    (hD : ∀ a c, D a → f a = .ok (some c) → D' c) {cs : List γ} (hcs : xs.filterMapM f = .ok cs) :
    ∃ ds, ys.filterMapM g = .ok ds ∧ Thinned S D' cs ds := by
  induction h generalizing cs with
  | nil =>
    cases hcs
    exact ⟨[], rfl, .nil⟩
  | @keep a b as bs hab _ ih =>
    rw [List.filterMapM_cons] at hcs ⊢
    have hrel := hR a b hab
    cases hfa : f a with
    | error e => rw [hfa] at hcs; cases hcs
    | ok c? =>
      rw [hfa] at hcs hrel
      generalize g b = y at hrel ⊢
      cases hrel with
      | @ok _ d? hcd =>
        cases hcd with
        | none => exact ih hcs
        | @some c d hcd =>
          cases hrest : as.filterMapM f with
          | error e => simp only [hrest, bind, Except.bind, reduceCtorEq] at hcs
          | ok cs' =>
            simp only [hrest, bind, Except.bind, pure, Except.pure, Except.ok.injEq] at hcs
            obtain ⟨ds, hds, hthin⟩ := ih hrest
            refine ⟨d :: ds, ?_, hcs ▸ .keep hcd hthin⟩
            simp only [hds, bind, Except.bind, pure, Except.pure]
  | @drop a as bs ha _ ih =>
    rw [List.filterMapM_cons] at hcs
    cases hfa : f a with
    | error e => rw [hfa] at hcs; cases hcs
    | ok c? =>
      rw [hfa] at hcs
      cases c? with
      | none => exact ih hcs
      | some c =>
        cases hrest : as.filterMapM f with
        | error e => simp only [hrest, bind, Except.bind, reduceCtorEq] at hcs
        | ok cs' =>
          simp only [hrest, bind, Except.bind, pure, Except.pure, Except.ok.injEq] at hcs
          obtain ⟨ds, hds, hthin⟩ := ih hrest
          exact ⟨ds, hds, hcs ▸ .drop (hD a c ha hfa) hthin⟩

end Related
