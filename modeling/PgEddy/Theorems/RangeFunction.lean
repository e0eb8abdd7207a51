import PgEddy.Lib.Progression
import PgEddy.Ranges

/-!
# What `range` returns

`range` returns an arithmetic progression where the integer that follows its last one is a machine integer. Where it is not, a
debug build panics, and a release build goes on with an integer from the other end of the range.
-/

namespace PgEddy

open Signed64 Progression

namespace RangeAux

variable {build : Build} {s e st cur : Int64}

/-! ## One round -/

theorem inRange_iff : inRange e st cur = true ↔ Within e.toInt st.toInt cur.toInt := by
  simp only [inRange, Within, Bool.or_eq_true, Bool.and_eq_true, decide_eq_true_eq, Int64.lt_iff_toInt_lt,
    Int64.le_iff_toInt_le]
  rfl

/-- A step that stays in the range of the machine integers. -/
theorem int_of_fits {z : Int} (h : Fits z) : ∃ next : Int64, build.int z = .ok next ∧ next.toInt = z := by
  refine ⟨.ofInt z, ?_, toInt_ofInt_of_fits h⟩
  cases build with
  | debug => exact if_pos h
  | release => rfl

theorem rangeLoop_stop (h : ¬Within e.toInt st.toInt cur.toInt) (fuel : Nat) (acc : List Json) :
    rangeLoop build e st fuel cur acc = some (.ok acc) := by
  rw [rangeLoop.eq_def]
  exact if_neg fun hin => h (inRange_iff.mp hin)

theorem rangeLoop_step (h : Within e.toInt st.toInt cur.toInt) (fuel : Nat) (acc : List Json) :
    rangeLoop build e st (fuel + 1) cur acc =
      match build.int (cur.toInt + st.toInt) with
      | .ok next => rangeLoop build e st fuel next (acc ++ [Value.jsonInt cur])
      | .error f => some (.error f) := by
  rw [rangeLoop.eq_def]
  exact if_pos (inRange_iff.mpr h)

theorem rangeLoop_zero (h : Within e.toInt st.toInt cur.toInt) (acc : List Json) :
    rangeLoop build e st 0 cur acc = none := by
  rw [rangeLoop.eq_def]
  exact if_pos (inRange_iff.mpr h)

/-- A step that does not pass the end stays in range. -/
theorem fits_of_within {z : Int} (h : Within e.toInt st.toInt cur.toInt) (hnext : Within e.toInt st.toInt z)
    (hz : z = cur.toInt + st.toInt) : Fits z := by
  have he := fits_toInt e
  have hcur := fits_toInt cur
  unfold Fits at he hcur ⊢
  rcases h with h | h <;> rcases hnext with hnext | hnext <;> omega

/-! ## Where the progression ends in range -/

/-- The loop returns what it has and the rest of the progression. -/
theorem rangeLoop_exact (n : Nat) : ∀ {cur : Int64} (acc : List Json), count e.toInt st.toInt cur.toInt = n →
    Fits (beyond e.toInt st.toInt cur.toInt) →
      rangeLoop build e st n cur acc =
        some (.ok (acc ++ (terms e.toInt st.toInt cur.toInt).map fun x => Value.jsonInt (.ofInt x))) := by
  induction n with
  | zero =>
    intro cur acc hcount hfits
    have hout : ¬Within e.toInt st.toInt cur.toInt := fun h => by
      rw [count_of_within h] at hcount
      omega
    rw [rangeLoop_stop hout, terms_of_not_within hout]
    simp
  | succ n ih =>
    intro cur acc hcount hfits
    have hin : Within e.toInt st.toInt cur.toInt := within_of_count_ne_zero (by omega)
    have hnext : Fits (cur.toInt + st.toInt) := by
      by_cases h : Within e.toInt st.toInt (cur.toInt + st.toInt)
      · exact fits_of_within hin h rfl
      · rwa [beyond_of_within hin, beyond_of_not_within h] at hfits
    obtain ⟨next, hint, htoInt⟩ := @int_of_fits build _ hnext
    rw [rangeLoop_step hin, hint]
    have hrest := @ih next (acc ++ [Value.jsonInt cur]) (by rw [htoInt]; rw [count_of_within hin] at hcount; omega)
      (by rwa [htoInt, ← beyond_of_within hin])
    rw [terms_of_within hin, List.map_cons, Int64.ofInt_toInt, ← htoInt]
    simpa using hrest

/-! ## Where it does not -/

/-- The loop keeps what it has, and adds to it if it is still before the end. -/
theorem length_le_of_rangeLoop : ∀ {fuel : Nat} {cur : Int64} {acc out : List Json},
    rangeLoop build e st fuel cur acc = some (.ok out) →
      acc.length + (if Within e.toInt st.toInt cur.toInt then 1 else 0) ≤ out.length := by
  intro fuel
  induction fuel with
  | zero =>
    intro cur acc out hrun
    by_cases h : Within e.toInt st.toInt cur.toInt
    · rw [rangeLoop_zero h] at hrun
      nomatch hrun
    · rw [rangeLoop_stop h] at hrun
      cases hrun
      simp [h]
  | succ fuel ih =>
    intro cur acc out hrun
    by_cases h : Within e.toInt st.toInt cur.toInt
    · rw [rangeLoop_step h] at hrun
      cases hint : build.int (cur.toInt + st.toInt) with
      | error f =>
        rw [hint] at hrun
        nomatch hrun
      | ok next =>
        rw [hint] at hrun
        have hle := ih hrun
        rw [List.length_append] at hle
        simp only [if_pos h]
        exact Nat.le_trans (Nat.le_add_right _ _) hle
    · rw [rangeLoop_stop h] at hrun
      cases hrun
      simp [h]

/-- A step out of range wraps around to an integer that the end is not behind. -/
theorem within_of_wrap (hin : Within e.toInt st.toInt cur.toInt) (hwrap : ¬Fits (cur.toInt + st.toInt)) :
    Within e.toInt st.toInt (Int64.ofInt (cur.toInt + st.toInt)).toInt := by
  have hcur := fits_toInt cur
  have hst := fits_toInt st
  have hmod : (Int64.ofInt (cur.toInt + st.toInt)).toInt = (cur.toInt + st.toInt).bmod (2 ^ 64) := Int64.toInt_ofInt
  unfold Fits at hcur hst hwrap
  rw [hmod, Int.bmod_def]
  rcases hin with hin | hin
  · exact .inl ⟨hin.1, by split <;> omega⟩
  · exact .inr ⟨hin.1, by split <;> omega⟩

/-- What the loop returns is longer than the progression. -/
theorem lt_length_of_rangeLoop (n : Nat) : ∀ {fuel : Nat} {cur : Int64} {acc out : List Json},
    count e.toInt st.toInt cur.toInt = n → ¬Fits (beyond e.toInt st.toInt cur.toInt) →
      rangeLoop build e st fuel cur acc = some (.ok out) → acc.length + n < out.length := by
  induction n with
  | zero =>
    intro fuel cur acc out hcount hfits hrun
    have hout : ¬Within e.toInt st.toInt cur.toInt := fun h => by
      rw [count_of_within h] at hcount
      omega
    rw [beyond_of_not_within hout] at hfits
    exact absurd (fits_toInt cur) hfits
  | succ n ih =>
    intro fuel cur acc out hcount hfits hrun
    have hin : Within e.toInt st.toInt cur.toInt := within_of_count_ne_zero (by omega)
    rw [count_of_within hin] at hcount
    cases fuel with
    | zero =>
      rw [rangeLoop_zero hin] at hrun
      nomatch hrun
    | succ fuel =>
      rw [rangeLoop_step hin] at hrun
      by_cases hnext : Fits (cur.toInt + st.toInt)
      · obtain ⟨next, hint, htoInt⟩ := @int_of_fits build _ hnext
        rw [hint] at hrun
        have hlt := ih (by rw [htoInt]; omega) (by rwa [htoInt, ← beyond_of_within hin]) hrun
        rw [List.length_append, List.length_singleton] at hlt
        omega
      · have hn : n = 0 := by
          by_contra hn
          exact hnext (fits_of_within hin (within_of_count_ne_zero (by omega)) rfl)
        cases build with
        | debug =>
          rw [show Build.debug.int (cur.toInt + st.toInt) = .error .overflow from if_neg hnext] at hrun
          nomatch hrun
        | release =>
          rw [show Build.release.int (cur.toInt + st.toInt) = .ok (.ofInt (cur.toInt + st.toInt)) from rfl] at hrun
          have hle := length_le_of_rangeLoop hrun
          rw [if_pos (within_of_wrap hin hnext), List.length_append, List.length_singleton] at hle
          omega

/-! ## The function -/

theorem range_ints {ch : Chrono} (hst : st ≠ 0) (fuel : Nat) :
    range build fuel [.ok (.int s), .ok (.int e), .ok (.int st)] =
      (rangeLoop build e st fuel s []).map fun result => do return (.json (.array (← result)) : Value ch) := by
  change (if st = 0 then _ else _) = _
  rw [if_neg hst]

end RangeAux

/-- The integers from a start up to an end, as a list value. -/
def progressionValue (ch : Chrono) (s e st : Int64) : Value ch :=
  .json (.array ((terms e.toInt st.toInt s.toInt).map fun x => Value.jsonInt (.ofInt x)))

namespace RangeAux

variable {ch : Chrono} {build : Build} {s e st : Int64}

theorem not_exact (hst : st ≠ 0) (h : ¬Fits (beyond e.toInt st.toInt s.toInt)) (fuel : Nat) :
    range build fuel [.ok (.int s), .ok (.int e), .ok (.int st)] ≠ some (.ok (progressionValue ch s e st)) := by
  intro hrun
  rw [range_ints hst] at hrun
  cases hloop : rangeLoop build e st fuel s [] with
  | none =>
    rw [hloop] at hrun
    nomatch hrun
  | some result =>
    rw [hloop] at hrun
    cases result with
    | error f => nomatch hrun
    | ok out =>
      have hlt := lt_length_of_rangeLoop _ rfl h hloop
      have hout : out = (terms e.toInt st.toInt s.toInt).map fun x => Value.jsonInt (.ofInt x) := by
        injection hrun with hrun
        injection hrun with hrun
        injection hrun with hrun
        injection hrun
      rw [hout, List.length_map, length_terms, List.length_nil] at hlt
      omega

end RangeAux

open RangeAux

/-- `range` terminates with the integers from the start up to the end just when the first integer beyond the end is a machine
integer. -/
theorem range_exact_iff (ch : Chrono) (build : Build) (s e st : Int64) (hst : st ≠ 0) :
    (∃ fuel, range build fuel [.ok (.int s), .ok (.int e), .ok (.int st)] = some (.ok (progressionValue ch s e st))) ↔
      Fits (beyond e.toInt st.toInt s.toInt) := by
  constructor
  · rintro ⟨fuel, hrun⟩
    by_contra h
    exact not_exact hst h fuel hrun
  · intro h
    refine ⟨count e.toInt st.toInt s.toInt, ?_⟩
    rw [range_ints hst, rangeLoop_exact _ [] rfl h]
    rfl

theorem range_exact_iff_small : (3 : Int64) ≠ 0 ∧
    ((∃ fuel, range .debug fuel [.ok (.int 1), .ok (.int 9), .ok (.int 3)] =
      some (.ok (progressionValue Engine.bare.ch 1 9 3))) ↔
        Fits (beyond (9 : Int64).toInt (3 : Int64).toInt (1 : Int64).toInt)) :=
  ⟨by decide, range_exact_iff Engine.bare.ch .debug 1 9 3 (by decide)⟩

/-- Counted up to the greatest machine integer, `range` does not return the integers up to it. -/
theorem range_passes_the_end : ¬∀ (ch : Chrono) (build : Build) (s e st : Int64), st ≠ 0 →
    ∃ fuel, range build fuel [.ok (.int s), .ok (.int e), .ok (.int st)] = some (.ok (progressionValue ch s e st)) := by
  intro h
  obtain ⟨fuel, hrun⟩ := h Engine.bare.ch .release 9223372036854775806 9223372036854775807 1 (by decide)
  exact not_exact (by decide) (by decide) fuel hrun

end PgEddy
