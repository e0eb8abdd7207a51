import Mathlib.Algebra.Order.Ring.Int
import Mathlib.Tactic.Common

/-!
# Signed integers of 64 bits and the integers they stand for

An operation on machine integers is exact where the result over the integers is in range, and nowhere else.
-/

namespace Signed64

/-- The integer is in the range of a signed integer of 64 bits. -/
def Fits (z : Int) : Prop := -2 ^ 63 ≤ z ∧ z < 2 ^ 63

instance : DecidablePred Fits := fun z => inferInstanceAs (Decidable (-2 ^ 63 ≤ z ∧ z < 2 ^ 63))

theorem fits_toInt (a : Int64) : Fits a.toInt := ⟨a.le_toInt, a.toInt_lt⟩

theorem toInt_ofInt_of_fits {z : Int} (h : Fits z) : (Int64.ofInt z).toInt = z := Int64.toInt_ofInt_of_le h.1 h.2

/-- An integer is wrapped to itself just when it is in range. -/
theorem toInt_ofInt_iff {z : Int} : (Int64.ofInt z).toInt = z ↔ Fits z := by
  constructor
  · intro h
    rw [← h]
    exact fits_toInt _
  · exact toInt_ofInt_of_fits

/-- An integer is wrapped to the one in range that differs from it by a multiple of the number of machine integers. -/
theorem toInt_ofInt_eq_iff {z w : Int} : (Int64.ofInt z).toInt = w ↔ Fits w ∧ (2 ^ 64 : Int) ∣ w - z := by
  rw [Int64.toInt_ofInt, Int.bmod_eq_iff (by decide), ← and_assoc]
  exact Iff.rfl

theorem toInt_minValue : Int64.minValue.toInt = -2 ^ 63 := rfl

theorem toInt_eq_minValue {a : Int64} (h : a.toInt = -2 ^ 63) : a = Int64.minValue := Int64.toInt_inj.mp (h.trans toInt_minValue.symm)

/-- The negative of a machine integer is out of range for the least one only. -/
theorem fits_neg_iff (a : Int64) : Fits (-a.toInt) ↔ a ≠ Int64.minValue := by
  have ha := fits_toInt a
  unfold Fits at ha ⊢
  constructor
  · rintro ⟨-, hlt⟩ rfl
    rw [toInt_minValue] at hlt
    omega
  · intro hne
    have hmin : a.toInt ≠ -2 ^ 63 := fun h => hne (toInt_eq_minValue h)
    omega

/-- So is the absolute value. -/
theorem fits_natAbs_iff (a : Int64) : Fits a.toInt.natAbs ↔ a ≠ Int64.minValue := by
  have ha := fits_toInt a
  unfold Fits at ha ⊢
  constructor
  · rintro ⟨-, hlt⟩ rfl
    rw [toInt_minValue] at hlt
    omega
  · intro hne
    have hmin : a.toInt ≠ -2 ^ 63 := fun h => hne (toInt_eq_minValue h)
    omega

/-- The quotient of machine integers is in range, except for that of the least one by minus one. -/
theorem fits_tdiv {a b : Int64} (h : ¬(a = Int64.minValue ∧ b = -1)) : Fits (a.toInt.tdiv b.toInt) := by
  have ha := fits_toInt a
  have hle := Int.natAbs_tdiv_le_natAbs a.toInt b.toInt
  unfold Fits at ha ⊢
  by_cases hmin : a.toInt = -2 ^ 63
  · have hone : b.toInt ≠ -1 := fun hb => h ⟨toInt_eq_minValue hmin, Int64.toInt_inj.mp hb⟩
    rw [hmin]
    rcases Int.lt_trichotomy b.toInt 0 with hneg | hzero | hpos
    · have hhalf : (Int.tdiv (-2 ^ 63) b.toInt).natAbs ≤ 2 ^ 63 / 2 := by
        rw [Int.natAbs_tdiv]
        exact Nat.div_le_div_left (by omega) (by decide)
      omega
    · rw [hzero, Int.tdiv_zero]
      decide
    · have hsign : Int.tdiv (-2 ^ 63) b.toInt = -Int.tdiv (2 ^ 63) b.toInt := Int.neg_tdiv _ _
      have hnonneg : 0 ≤ Int.tdiv (2 ^ 63) b.toInt := Int.tdiv_nonneg (by decide) (Int.le_of_lt hpos)
      rw [hmin] at hle
      omega
  · omega

/-- The remainder by a machine integer is in range. -/
theorem fits_tmod (a b : Int64) : Fits (a.toInt.tmod b.toInt) := by
  have ha := fits_toInt a
  have hle : (a.toInt.tmod b.toInt).natAbs ≤ a.toInt.natAbs := by
    rw [Int.natAbs_tmod]
    exact Nat.mod_le _ _
  rcases Int.le_total 0 a.toInt with hpos | hneg
  · have hsign := Int.tmod_nonneg b.toInt hpos
    unfold Fits at ha ⊢
    omega
  · unfold Fits at ha ⊢
    have hsign : a.toInt.tmod b.toInt ≤ 0 := by
      have hopp := Int.tmod_nonneg b.toInt (a := -a.toInt) (by omega)
      rw [Int.neg_tmod] at hopp
      omega
    omega

end Signed64
