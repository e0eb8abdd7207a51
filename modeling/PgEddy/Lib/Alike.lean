import PgEddy.Lib.Recorded

/-!
# Programs that do the same

Two programs do the same from a state if they take the same steps and stop with the same error, if in one. Their results may
differ by a relation. What is shown of the parts of two programs then holds of the programs.
-/

namespace Recorded

variable {ε σ η α β γ δ : Type}

/-- From `w` two programs take the same steps, and end with related results or with the same error. -/
inductive Alike (R : α → β → Prop) (x : Program ε σ η α) (y : Program ε σ η β) (w : σ × List η) : Prop where
  | ok {a : α} {b : β} {w' : σ × List η} (left : x w = (.ok a, w')) (right : y w = (.ok b, w')) (related : R a b)
  | error {e : ε} {w' : σ × List η} (left : x w = (.error e, w')) (right : y w = (.error e, w'))

namespace Alike

variable {R : α → β → Prop} {S : γ → δ → Prop} {x : Program ε σ η α} {y : Program ε σ η β} {w : σ × List η}

theorem pure {a : α} {b : β} (h : R a b) : Alike R (Pure.pure a : Program ε σ η α) (Pure.pure b) w := .ok rfl rfl h

/-- A program does what it does. -/
theorem refl (x : Program ε σ η α) (w : σ × List η) : Alike Eq x x w := by
  rcases h : x w with ⟨e | a, w'⟩
  · exact .error h h
  · exact .ok h h rfl

theorem of_eq {x' : Program ε σ η α} (h : x w = x' w) : Alike Eq x x' w := by
  rcases hres : x w with ⟨e | a, w'⟩
  · exact .error hres (h.symm.trans hres)
  · exact .ok hres (h.symm.trans hres) rfl

theorem stop (e : ε) : Alike R (Recorded.stop e) (Recorded.stop e) w := .error rfl rfl

theorem weaken {T : α → β → Prop} (h : Alike R x y w) (hrel : ∀ a b, R a b → T a b) : Alike T x y w := by
  cases h with
  | ok left right related => exact .ok left right (hrel _ _ related)
  | error left right => exact .error left right

/-- What follows does the same from where the first parts end. -/
theorem bind {f : α → Program ε σ η γ} {g : β → Program ε σ η δ} (h : Alike R x y w)
    (hrest : ∀ a b w', x w = (.ok a, w') → R a b → Alike S (f a) (g b) w') : Alike S (x >>= f) (y >>= g) w := by
  cases h with
  | ok left right related =>
    cases hrest _ _ _ left related with
    | ok left' right' related' => exact .ok ((bind_ok left).trans left') ((bind_ok right).trans right') related'
    | error left' right' => exact .error ((bind_ok left).trans left') ((bind_ok right).trans right')
  | error left right => exact .error (bind_error left) (bind_error right)

/-- Two programs do the same after the same first part. -/
theorem bind_same {f : α → Program ε σ η γ} {g : α → Program ε σ η δ}
    (h : ∀ a w', x w = (.ok a, w') → Alike S (f a) (g a) w') : Alike S (x >>= f) (x >>= g) w := by
  apply (refl x w).bind
  rintro a _ w' hres rfl
  exact h a w' hres

/-- Two programs that do the same leave the same state and the same record. -/
theorem snd_eq (h : Alike R x y w) : (x w).2 = (y w).2 := by
  cases h with
  | ok left right => rw [left, right]
  | error left right => rw [left, right]

end Alike

end Recorded
