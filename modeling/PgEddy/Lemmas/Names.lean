import PgEddy.Planner
import Std.Data.String.ToNat

/-!
# Internal names

The planner makes names for the elements of a pattern that have none. They start with an underscore and a word of their own,
so they are different from each other and from the variables of a query that do not start that way.
-/

namespace PgEddy

/-- How the names that the planner makes for relationships start. -/
def relPrefixes : List String := ["_anon_rel_", "_pr_", "_path_carry_", "_anon_vrel_"]

/-- The name may be one that the planner makes for a relationship. -/
def isRelName (x : String) : Bool := relPrefixes.any fun p => startsWith p x

/-- The name may be one that the planner makes. -/
def isInternal (x : String) : Bool := isRelName x || startsWith "_anon_n" x || startsWith "_r_" x

theorem startsWith_append (p r : String) : startsWith p (p ++ r) = true := by
  unfold startsWith
  rw [String.toList_append]
  exact List.isPrefixOf_iff_prefix.mpr (List.prefix_append _ _)

theorem isRelName_anonRel (n : Nat) : isRelName (anonRel n) = true := by
  unfold isRelName relPrefixes anonRel
  rw [List.any_cons, startsWith_append, Bool.true_or]

theorem isRelName_pathRel (n : Nat) : isRelName (pathRel n) = true := by
  unfold isRelName relPrefixes pathRel
  rw [List.any_cons, List.any_cons, startsWith_append, Bool.true_or, Bool.or_true]

theorem isRelName_pathCarry (x : String) : isRelName ("_path_carry_" ++ x) = true := by
  unfold isRelName relPrefixes
  rw [List.any_cons, List.any_cons, List.any_cons, startsWith_append, Bool.true_or, Bool.or_true, Bool.or_true]

theorem isRelName_anonNode (r : String) : isRelName ("_anon_n" ++ r) = false := by
  simp [isRelName, relPrefixes, startsWith, String.toList_append, List.isPrefixOf]

theorem isRelName_iterVar (r : String) : isRelName ("_r_" ++ r) = false := by
  simp [isRelName, relPrefixes, startsWith, String.toList_append, List.isPrefixOf]

theorem not_isRelName_of_not_isInternal {x : String} (h : isInternal x = false) : isRelName x = false := by
  unfold isInternal at h
  rw [Bool.or_eq_false_iff, Bool.or_eq_false_iff] at h
  exact h.1.1

theorem anonRel_injective {m n : Nat} (h : anonRel m = anonRel n) : m = n := Nat.repr_inj.mp ((String.append_right_inj _).mp h)

theorem pathRel_injective {m n : Nat} (h : pathRel m = pathRel n) : m = n := Nat.repr_inj.mp ((String.append_right_inj _).mp h)

theorem anonRel_ne_pathRel (m n : Nat) : anonRel m ≠ pathRel n := by
  intro h
  have := congrArg String.toList h
  simp [anonRel, pathRel, String.toList_append] at this

theorem pathRel_ne_pathCarry (n : Nat) (x : String) : pathRel n ≠ "_path_carry_" ++ x := by
  intro h
  have := congrArg String.toList h
  simp [pathRel, String.toList_append] at this

theorem startsWith_anonRel_pathRel (n : Nat) : startsWith "_anon_rel_" (pathRel n) = false := by
  simp [startsWith, pathRel, String.toList_append, List.isPrefixOf]

/-- A fresh name is the internal name with something after it. -/
theorem freshName_eq_append (fuel : Nat) (taken : List String) (name : String) : ∃ r, freshName fuel taken name = name ++ r := by
  induction fuel generalizing name with
  | zero => exact ⟨"", (String.append_empty).symm⟩
  | succ fuel ih =>
    unfold freshName
    split
    · obtain ⟨r, hr⟩ := ih (name ++ "_")
      exact ⟨"_" ++ r, by rw [hr, String.append_assoc]⟩
    · exact ⟨"", (String.append_empty).symm⟩

theorem freshName_notMem_of_le {fuel : Nat} {taken : List String} {name : String}
    (h : (taken.filter fun t => name.length ≤ t.length).length ≤ fuel) : freshName fuel taken name ∉ taken := by
  induction fuel generalizing name with
  | zero =>
    intro hmem
    have : name ∈ taken.filter fun t => name.length ≤ t.length := List.mem_filter.mpr ⟨hmem, by simp⟩
    rw [List.length_eq_zero_iff.mp (Nat.le_zero.mp h)] at this
    exact absurd this List.not_mem_nil
  | succ fuel ih =>
    unfold freshName
    split
    · rename_i hmem
      -- the name itself is as long as it needs to be to count, and is too short to count after one more underscore
      apply ih
      have hsub : (taken.filter fun t => (name ++ "_").length ≤ t.length) =
          (taken.filter fun t => name.length ≤ t.length).filter fun t => (name ++ "_").length ≤ t.length := by
        rw [List.filter_filter]
        refine List.filter_congr fun t _ => ?_
        simp only [String.length_append, ← Bool.decide_and, decide_eq_decide]
        omega
      rw [hsub]
      refine Nat.le_of_lt_succ (Nat.lt_of_lt_of_le (List.length_filter_lt_length_iff_exists.mpr ⟨name, ?_, ?_⟩) h)
      · exact List.mem_filter.mpr ⟨hmem, decide_eq_true (Nat.le_refl _)⟩
      · simp
    · assumption

/-- A fresh name is not taken. -/
theorem freshName_notMem (taken : List String) (name : String) : freshName taken.length taken name ∉ taken :=
  freshName_notMem_of_le (List.length_filter_le _ _)

end PgEddy
