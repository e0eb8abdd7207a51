import PgEddy.Lib.Binary64

/-!
# The order of binary floating point numbers

Rounding keeps the order: the numbers nearest to integers are in the order of the integers.
-/

namespace Binary64

namespace F64

/-- The units of a number rounded to the bits of a significand, from its quotient and its remainder. -/
def roundedQuotient (n h : Nat) : Nat := if 2 * (n % h) > h ∨ (2 * (n % h) = h ∧ n / h % 2 = 1) then n / h + 1 else n / h

theorem le_roundedQuotient (n h : Nat) : n / h ≤ roundedQuotient n h := by
  unfold roundedQuotient
  split <;> omega

theorem roundedQuotient_le (n h : Nat) : roundedQuotient n h ≤ n / h + 1 := by
  unfold roundedQuotient
  split <;> omega

/-- Rounding at one place keeps the order. -/
theorem roundedQuotient_mono {m n h : Nat} (hle : m ≤ n) : roundedQuotient m h ≤ roundedQuotient n h := by
  have hquot := Nat.div_le_div_right (c := h) hle
  rcases Nat.lt_or_eq_of_le hquot with hlt | heq
  · have hm := roundedQuotient_le m h
    have hn := le_roundedQuotient n h
    omega
  · have hrem : m % h ≤ n % h := by
      have hm := Nat.div_add_mod m h
      have hn := Nat.div_add_mod n h
      rw [heq] at hm
      omega
    unfold roundedQuotient
    rw [heq]
    split <;> split <;> omega

theorem nearestMagnitude_one (n : Nat) :
    nearestMagnitude n 1 = (Nat.log2 n - 52) * 2 ^ 52 + roundedQuotient n (2 ^ (Nat.log2 n - 52)) := by
  unfold nearestMagnitude roundedQuotient
  simp only [Nat.div_one, Nat.one_mul]

/-- Rounding keeps the order. -/
theorem nearestMagnitude_mono {m n : Nat} (hle : m ≤ n) : nearestMagnitude m 1 ≤ nearestMagnitude n 1 := by
  rw [nearestMagnitude_one, nearestMagnitude_one]
  have hlog : Nat.log2 m ≤ Nat.log2 n := by
    by_cases hzero : m = 0
    · rw [hzero]
      exact Nat.zero_le _
    · exact (Nat.le_log2 (by omega)).mpr ((Nat.log2_self_le hzero).trans hle)
  rcases Nat.lt_or_eq_of_le (Nat.sub_le_sub_right hlog 52) with hlt | heq
  · -- The place moves up: what the lower number is rounded to is below the least one of the higher place.
    have hm : roundedQuotient m (2 ^ (Nat.log2 m - 52)) ≤ 2 ^ 53 := by
      have hsmall : m / 2 ^ (Nat.log2 m - 52) < 2 ^ 53 := by
        rw [Nat.div_lt_iff_lt_mul (Nat.two_pow_pos _), ← Nat.pow_add]
        refine Nat.lt_of_lt_of_le Nat.lt_log2_self (Nat.pow_le_pow_right (by decide) ?_)
        omega
      have hround := roundedQuotient_le m (2 ^ (Nat.log2 m - 52))
      omega
    have hn : 2 ^ 52 ≤ roundedQuotient n (2 ^ (Nat.log2 n - 52)) := by
      refine Nat.le_trans ?_ (le_roundedQuotient _ _)
      rw [Nat.le_div_iff_mul_le (Nat.two_pow_pos _), ← Nat.pow_add]
      have hplace : 52 + (Nat.log2 n - 52) = Nat.log2 n := by omega
      rw [hplace]
      refine Nat.log2_self_le fun hzero => ?_
      rw [hzero] at hlt
      exact absurd hlt (by simp)
    have hstep : (Nat.log2 m - 52 + 1) * 2 ^ 52 ≤ (Nat.log2 n - 52) * 2 ^ 52 := Nat.mul_le_mul_right _ hlt
    omega
  · rw [heq]
    exact Nat.add_le_add_left (roundedQuotient_mono hle) _

/-- The bit patterns that are no number are above the one of infinity. -/
theorem infMagnitude_lt_of_nanBits {bits : UInt64} (h : nanBits bits = true) : infMagnitude < bits.toNat % 2 ^ 63 := by
  obtain ⟨hexp, hfrac⟩ := (Bool.and_eq_true _ _).mp h
  have hexp' : bits.toNat &&& 0x7FF0000000000000 = 0x7FF0000000000000 := by
    have := congrArg UInt64.toNat (beq_iff_eq.mp hexp)
    simpa using this
  have hfrac' : bits.toNat &&& 0x000FFFFFFFFFFFFF ≠ 0 := by
    intro hzero
    have hbits : bits &&& 0x000FFFFFFFFFFFFF = 0 := UInt64.toNat_inj.mp (by simpa using hzero)
    rw [hbits] at hfrac
    exact absurd hfrac (by decide)
  have hmask : bits.toNat % 2 ^ 63 = (bits.toNat &&& 0x7FF0000000000000) ||| (bits.toNat &&& 0x000FFFFFFFFFFFFF) := by
    rw [← Nat.and_or_distrib_left, ← Nat.and_two_pow_sub_one_eq_mod]
    rfl
  have hsplit : bits.toNat % 2 ^ 63 = 0x7FF0000000000000 ||| (bits.toNat &&& 0x000FFFFFFFFFFFFF) := by rw [hmask, hexp']
  refine Nat.lt_of_le_of_ne (hsplit ▸ Nat.left_le_or) fun heq => hfrac' ?_
  have hlow : (bits.toNat % 2 ^ 63) &&& 0x000FFFFFFFFFFFFF = bits.toNat &&& 0x000FFFFFFFFFFFFF := by
    rw [hsplit, Nat.and_or_distrib_right, Nat.and_assoc, Nat.and_self]
    exact Nat.zero_or _
  rw [← hlow, ← heq]
  rfl

/-! ## Integers below 2 ^ 53 -/

theorem roundedQuotient_of_dvd {n h : Nat} (hpos : 0 < h) (hdvd : h ∣ n) : roundedQuotient n h = n / h := by
  unfold roundedQuotient
  rw [Nat.mod_eq_zero_of_dvd hdvd, if_neg (by omega)]

theorem log2_mul_two_pow {k : Nat} (hk : k ≠ 0) (p : Nat) : Nat.log2 (k * 2 ^ p) = Nat.log2 k + p := by
  have hpos : 0 < 2 ^ p := Nat.two_pow_pos p
  refine (Nat.log2_eq_iff (Nat.mul_ne_zero hk (Nat.ne_of_gt hpos))).mpr ⟨?_, ?_⟩
  · rw [Nat.pow_add]
    exact Nat.mul_le_mul_right _ (Nat.log2_self_le hk)
  · rw [Nat.add_right_comm, Nat.pow_add]
    exact Nat.mul_lt_mul_of_pos_right Nat.lt_log2_self hpos

/-- An integer whose bits fit the significand is not rounded. -/
theorem nearestMagnitude_exact {k p : Nat} (hk : k ≠ 0) (hlt : k < 2 ^ 53) (hp : 52 ≤ p) :
    nearestMagnitude (k * 2 ^ p) 1 = (Nat.log2 k + (p - 52)) * 2 ^ 52 + k * 2 ^ (52 - Nat.log2 k) := by
  have hlog : Nat.log2 k ≤ 52 := Nat.le_of_lt_succ ((Nat.log2_lt hk).mpr hlt)
  have hplace : Nat.log2 k + p - 52 = Nat.log2 k + (p - 52) := by omega
  have hsplit : k * 2 ^ p = k * 2 ^ (52 - Nat.log2 k) * 2 ^ (Nat.log2 k + (p - 52)) := by
    rw [Nat.mul_assoc, ← Nat.pow_add]
    congr 2
    omega
  rw [nearestMagnitude_one, log2_mul_two_pow hk, hplace, hsplit,
    roundedQuotient_of_dvd (Nat.two_pow_pos _) (Nat.dvd_mul_left _ _), Nat.mul_div_cancel _ (Nat.two_pow_pos _)]

/-- The significand of an integer stands between its least and its greatest value. -/
theorem significand_bounds {k : Nat} (hk : k ≠ 0) (hlt : k < 2 ^ 53) :
    2 ^ 52 ≤ k * 2 ^ (52 - Nat.log2 k) ∧ k * 2 ^ (52 - Nat.log2 k) < 2 ^ 53 := by
  have hlog : Nat.log2 k ≤ 52 := Nat.le_of_lt_succ ((Nat.log2_lt hk).mpr hlt)
  have hlow := Nat.mul_le_mul_right (2 ^ (52 - Nat.log2 k)) (Nat.log2_self_le hk)
  have hhigh := Nat.mul_lt_mul_of_pos_right (@Nat.lt_log2_self k) (Nat.two_pow_pos (52 - Nat.log2 k))
  rw [← Nat.pow_add] at hlow hhigh
  have h52 : Nat.log2 k + (52 - Nat.log2 k) = 52 := by omega
  have h53 : Nat.log2 k + 1 + (52 - Nat.log2 k) = 53 := by omega
  rw [h52] at hlow
  rw [h53] at hhigh
  exact ⟨hlow, hhigh⟩

/-- Integers below 2 ^ 53 keep apart. -/
theorem nearestMagnitude_lt {m n p : Nat} (hmn : m < n) (hn : n < 2 ^ 53) (hp : 52 ≤ p) :
    nearestMagnitude (m * 2 ^ p) 1 < nearestMagnitude (n * 2 ^ p) 1 := by
  have hn0 : n ≠ 0 := by omega
  obtain ⟨hlow, -⟩ := significand_bounds hn0 hn
  rw [nearestMagnitude_exact hn0 hn hp]
  by_cases hm0 : m = 0
  · subst hm0
    have hzero : nearestMagnitude (0 * 2 ^ p) 1 = 0 := by
      rw [Nat.zero_mul]
      rfl
    rw [hzero]
    omega
  · have hm : m < 2 ^ 53 := Nat.lt_trans hmn hn
    obtain ⟨-, hhigh⟩ := significand_bounds hm0 hm
    rw [nearestMagnitude_exact hm0 hm hp]
    have hle : Nat.log2 m ≤ Nat.log2 n := (Nat.le_log2 hn0).mpr ((Nat.log2_self_le hm0).trans (Nat.le_of_lt hmn))
    rcases Nat.lt_or_eq_of_le hle with hlt | heq
    · have hstep : (Nat.log2 m + 1 + (p - 52)) * 2 ^ 52 ≤ (Nat.log2 n + (p - 52)) * 2 ^ 52 :=
        Nat.mul_le_mul_right _ (by omega)
      omega
    · rw [heq]
      have hmul := Nat.mul_lt_mul_of_pos_right hmn (Nat.two_pow_pos (52 - Nat.log2 n))
      omega

theorem nearestMagnitude_lt_inf {k : Nat} (hlt : k < 2 ^ 53) : nearestMagnitude (k * 2 ^ 1074) 1 < infMagnitude := by
  by_cases hk : k = 0
  · subst hk
    rw [Nat.zero_mul]
    decide
  · have hlog : Nat.log2 k ≤ 52 := Nat.le_of_lt_succ ((Nat.log2_lt hk).mpr hlt)
    obtain ⟨-, hhigh⟩ := significand_bounds hk hlt
    rw [nearestMagnitude_exact hk hlt (by decide), infMagnitude]
    omega

/-- The place of a number made of a finite magnitude. -/
theorem rank_ofMagnitude {negative : Bool} {m : Nat} (hm : m < infMagnitude) :
    (ofMagnitude negative m).rank = if negative then -(m : Int) else m := by
  have hlt : m < 2 ^ 63 := Nat.lt_trans hm (by decide)
  rw [ofMagnitude, Nat.min_eq_left (Nat.le_of_lt hm)]
  generalize hN : m + (if negative then 2 ^ 63 else 0) = N
  have hNlt : N < 2 ^ 64 := by
    rw [← hN]
    split <;> omega
  have hmod : N % 2 ^ 63 = m := by
    rw [← hN]
    split <;> omega
  have hbits : (UInt64.ofNat N).toNat = N := UInt64.toNat_ofNat_of_lt' hNlt
  have hnumber : nanBits (UInt64.ofNat N) = false := by
    by_contra hnan
    have := infMagnitude_lt_of_nanBits (Bool.of_not_eq_false hnan)
    rw [hbits, hmod] at this
    omega
  have hof : (ofBits (UInt64.ofNat N)).bits = UInt64.ofNat N := by
    rw [ofBits, dif_neg (by rw [hnumber]; exact Bool.false_ne_true)]
  have hneg : (ofBits (UInt64.ofNat N)).isNegative = negative := by
    rw [isNegative, hof, hbits, ← hN]
    cases negative
    · simp only [Bool.false_eq_true, if_false, Nat.add_zero, decide_eq_false_iff_not, Nat.not_le]
      exact hlt
    · simp
  rw [rank, hneg, magnitude, hof, hbits, hmod]

/-- Integers below 2 ^ 53 are in their order also as numbers. -/
theorem compare_rank_ofInt {i j : Int} (hi : i.natAbs < 2 ^ 53) (hj : j.natAbs < 2 ^ 53) :
    compare (ofInt i).rank (ofInt j).rank = compare i j := by
  -- The place of an integer, by its size and its sign.
  have hrank : ∀ {k : Int}, k.natAbs < 2 ^ 53 → (ofInt k).rank =
      if k < 0 then -(nearestMagnitude (k.natAbs * 2 ^ 1074) 1 : Int) else nearestMagnitude (k.natAbs * 2 ^ 1074) 1 := by
    intro k hk
    rw [ofInt, nearest, oneUnits, rank_ofMagnitude (nearestMagnitude_lt_inf hk)]
    simp only [decide_eq_true_eq]
  have hmono : ∀ {k l : Int}, k.natAbs < 2 ^ 53 → l.natAbs < 2 ^ 53 → k < l → (ofInt k).rank < (ofInt l).rank := by
    intro k l hk hl hlt
    rw [hrank hk, hrank hl]
    by_cases hkneg : k < 0
    · by_cases hlneg : l < 0
      · have hsize := nearestMagnitude_lt (m := l.natAbs) (n := k.natAbs) (p := 1074) (by omega) hk (by decide)
        rw [if_pos hkneg, if_pos hlneg]
        omega
      · have hsize := nearestMagnitude_lt (m := 0) (n := k.natAbs) (p := 1074) (by omega) hk (by decide)
        rw [if_pos hkneg, if_neg hlneg]
        omega
    · have hlneg : ¬l < 0 := by omega
      have hsize := nearestMagnitude_lt (m := k.natAbs) (n := l.natAbs) (p := 1074) (by omega) hl (by decide)
      rw [if_neg hkneg, if_neg hlneg]
      omega
  rcases lt_trichotomy i j with hlt | heq | hgt
  · rw [compare_lt_iff_lt.mpr hlt, compare_lt_iff_lt.mpr (hmono hi hj hlt)]
  · rw [heq, compare_eq_iff_eq.mpr rfl, compare_eq_iff_eq.mpr rfl]
  · rw [compare_gt_iff_gt.mpr hgt, compare_gt_iff_gt.mpr (hmono hj hi hgt)]

end F64

end Binary64
