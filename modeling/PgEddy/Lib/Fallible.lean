import Mathlib.Data.List.Forall2

/-!
# Computations that may fail

What it means that a computation made of others has a result: each of them has one, in turn.
-/

namespace Fallible

variable {φ α β γ : Type}

theorem bind_eq_ok {x : Except φ α} {f : α → Except φ β} {b : β} :
    (x >>= f) = .ok b ↔ ∃ a, x = .ok a ∧ f a = .ok b := by
  cases x with
  | ok a => exact ⟨fun h => ⟨a, rfl, h⟩, fun ⟨_, ha, h⟩ => Except.ok.inj ha ▸ h⟩
  | error e => exact ⟨nofun, nofun⟩

theorem map_eq_ok {x : Except φ α} {f : α → β} {b : β} : (f <$> x) = .ok b ↔ ∃ a, x = .ok a ∧ f a = b := by
  cases x with
  | ok a => exact ⟨fun h => ⟨a, rfl, Except.ok.inj h⟩, fun ⟨_, ha, h⟩ => Except.ok.inj ha ▸ congrArg Except.ok h⟩
  | error e => exact ⟨nofun, nofun⟩

theorem pure_eq_ok {a b : α} : (pure a : Except φ α) = .ok b ↔ a = b := Except.ok.injEq a b ▸ Iff.rfl

@[simp] theorem ok_bind (a : α) (f : α → Except φ β) : ((.ok a : Except φ α) >>= f) = f a := rfl

@[simp] theorem error_bind (e : φ) (f : α → Except φ β) : ((.error e : Except φ α) >>= f) = .error e := rfl

@[simp] theorem map_ok (a : α) (f : α → β) : (f <$> (.ok a : Except φ α)) = .ok (f a) := rfl

@[simp] theorem map_error (e : φ) (f : α → β) : (f <$> (.error e : Except φ α)) = .error e := rfl

/-- A list of computations returns if each of them does, with their results in turn. -/
theorem mapM_eq_ok {f : α → Except φ β} {as : List α} {bs : List β} :
    as.mapM f = .ok bs ↔ List.Forall₂ (fun a b => f a = .ok b) as bs := by
  induction as generalizing bs with
  | nil =>
    rw [List.mapM_nil, List.forall₂_nil_left_iff, pure_eq_ok, eq_comm]
  | cons a as ih =>
    rw [List.mapM_cons, List.forall₂_cons_left_iff, bind_eq_ok]
    constructor
    · rintro ⟨b, hb, h⟩
      obtain ⟨bs', hbs', h⟩ := bind_eq_ok.mp h
      exact ⟨b, bs', hb, ih.mp hbs', (pure_eq_ok.mp h).symm⟩
    · rintro ⟨b, bs', hb, hbs', rfl⟩
      exact ⟨b, hb, bind_eq_ok.mpr ⟨bs', ih.mpr hbs', rfl⟩⟩

/-- Lists of computations that agree on their items agree. -/
theorem mapM_congr {f g : α → Except φ β} {as : List α} (h : ∀ a ∈ as, f a = g a) : as.mapM f = as.mapM g := by
  induction as with
  | nil => rfl
  | cons a as ih =>
    obtain ⟨ha, has⟩ := List.forall_mem_cons.mp h
    rw [List.mapM_cons, List.mapM_cons, ha, ih has]

theorem filterMapM_congr {f g : α → Except φ (Option β)} {as : List α} (h : ∀ a ∈ as, f a = g a) :
    as.filterMapM f = as.filterMapM g := by
  induction as with
  | nil => rfl
  | cons a as ih =>
    obtain ⟨ha, has⟩ := List.forall_mem_cons.mp h
    rw [List.filterMapM_cons, List.filterMapM_cons, ha, ih has]

end Fallible
