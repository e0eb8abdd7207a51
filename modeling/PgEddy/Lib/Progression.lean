import Mathlib.Tactic.Common
import Mathlib.Tactic.Ring
import Mathlib.Tactic.Linarith
import Mathlib.Algebra.Order.Ring.Int

/-!
# Arithmetic progressions up to an end

The integers that a start and a step give, as long as they do not lie beyond an end in the direction of the step.
-/

namespace Progression

/-- The integer does not lie beyond the end, in the direction of the step. -/
def Within (e st x : Int) : Prop := 0 < st ∧ x ≤ e ∨ st < 0 ∧ e ≤ x

instance (e st x : Int) : Decidable (Within e st x) := inferInstanceAs (Decidable (0 < st ∧ x ≤ e ∨ st < 0 ∧ e ≤ x))

/-- The number of integers up to the end. -/
def count (e st s : Int) : Nat := if Within e st s then (e - s).natAbs / st.natAbs + 1 else 0

/-- The integers up to the end. -/
def terms (e st s : Int) : List Int := (List.range (count e st s)).map fun (k : Nat) => s + k * st

/-- The first integer beyond the end. -/
def beyond (e st s : Int) : Int := s + count e st s * st

variable {e st s : Int}

theorem count_of_not_within (h : ¬Within e st s) : count e st s = 0 := if_neg h

/-- One integer less is left after each step. -/
theorem count_of_within (h : Within e st s) : count e st s = count e st (s + st) + 1 := by
  by_cases hnext : Within e st (s + st)
  · have hsub : (e - s).natAbs = (e - (s + st)).natAbs + st.natAbs := by
      rcases h with h | h <;> rcases hnext with hnext | hnext <;> omega
    have hpos : 0 < st.natAbs := by
      rcases h with h | h <;> omega
    rw [count, count, if_pos h, if_pos hnext, hsub, Nat.add_div_right _ hpos]
  · have hlt : (e - s).natAbs < st.natAbs := by
      unfold Within at hnext
      rcases h with h | h <;> omega
    rw [count, if_pos h, count_of_not_within hnext, Nat.div_eq_of_lt hlt]

theorem within_of_count_ne_zero (h : count e st s ≠ 0) : Within e st s := by
  by_contra hwithin
  exact h (count_of_not_within hwithin)

theorem terms_of_not_within (h : ¬Within e st s) : terms e st s = [] := by rw [terms, count_of_not_within h]; rfl

/-- The first integer is the start, and the others are those of the next start. -/
theorem terms_of_within (h : Within e st s) : terms e st s = s :: terms e st (s + st) := by
  rw [terms, count_of_within h, List.range_succ_eq_map, List.map_cons, List.map_map, terms]
  congr 1
  · simp
  · refine List.map_congr_left fun k _ => ?_
    simp only [Function.comp_apply, Nat.cast_succ]
    ring

theorem beyond_of_not_within (h : ¬Within e st s) : beyond e st s = s := by
  rw [beyond, count_of_not_within h]
  simp

theorem beyond_of_within (h : Within e st s) : beyond e st s = beyond e st (s + st) := by
  rw [beyond, count_of_within h, beyond]
  push_cast
  ring

@[simp] theorem length_terms : (terms e st s).length = count e st s := by simp [terms]

/-- The progression holds the integers that the steps reach and that are not beyond the end, and no others. -/
theorem mem_terms {x : Int} : x ∈ terms e st s ↔ ∃ k : Nat, x = s + k * st ∧ Within e st x := by
  constructor
  · intro hx
    induction hn : count e st s generalizing s with
    | zero => simp [terms, hn] at hx
    | succ n ih =>
      have hwithin : Within e st s := within_of_count_ne_zero (by omega)
      rw [terms_of_within hwithin, List.mem_cons] at hx
      rcases hx with rfl | hx
      · exact ⟨0, by simp, hwithin⟩
      · obtain ⟨k, rfl, hk⟩ := ih hx (by rw [count_of_within hwithin] at hn; omega)
        refine ⟨k + 1, ?_, hk⟩
        push_cast
        ring
  · rintro ⟨k, rfl, hk⟩
    induction k generalizing s with
    | zero =>
      have hwithin : Within e st s := by simpa using hk
      simp [terms_of_within hwithin]
    | succ k ih =>
      have hstep : s + (k + 1 : Nat) * st = s + st + k * st := by
        push_cast
        ring
      have hwithin : Within e st s := by
        have hmul : (0 : Int) ≤ (k + 1 : Nat) := by omega
        rcases hk with ⟨hst, hle⟩ | ⟨hst, hle⟩
        · exact .inl ⟨hst, by nlinarith⟩
        · exact .inr ⟨hst, by nlinarith⟩
      rw [terms_of_within hwithin, hstep]
      exact List.mem_cons_of_mem _ (ih (hstep ▸ hk))

end Progression
