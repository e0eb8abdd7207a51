import Mathlib.Data.List.Nodup
import Mathlib.Data.List.Perm.Subperm

/-!
# Numbers dealt out from a counter

A counter deals numbers, each one more than the last. Here: that the numbers in circulation are different and none is above the
last one dealt, what keeps that, and how the numbers of many holders change when one holder changes.
-/

/-- Numbers in circulation: all different, and none above the last one dealt. -/
structure Dealt (last : Nat) (ids : List Nat) : Prop where
  nodup : ids.Nodup
  le_last : ∀ id ∈ ids, id ≤ last

namespace Dealt

variable {last : Nat} {ids ids' : List Nat}

/-- Nothing is in circulation. -/
theorem nil (last : Nat) : Dealt last [] := ⟨List.nodup_nil, List.forall_mem_nil _⟩

/-- Numbers are handed over, and some are dropped. -/
theorem subperm (h : Dealt last ids) (hs : ids'.Subperm ids) : Dealt last ids' := by
  obtain ⟨ids'', hperm, hsub⟩ := hs
  exact ⟨hperm.nodup_iff.mp (h.nodup.sublist hsub), fun id hid => h.le_last id (hsub.subset (hperm.mem_iff.mpr hid))⟩

/-- The counter deals the next number. -/
theorem next (h : Dealt last ids) : Dealt (last + 1) ((last + 1) :: ids) where
  nodup := List.nodup_cons.mpr ⟨fun hmem => Nat.not_succ_le_self last (h.le_last _ hmem), h.nodup⟩
  le_last := List.forall_mem_cons.mpr ⟨Nat.le_refl _, fun id hid => Nat.le_succ_of_le (h.le_last id hid)⟩

end Dealt

/-- What one of many holders has, beside what the others have: when it changes, only its own part does. -/
theorem List.flatMap_set_perm {α β : Type*} (f : α → List β) {holders : List α} {i : Nat} {a : α} (h : holders[i]? = some a) :
    ∃ rest, (holders.flatMap f).Perm (f a ++ rest) ∧ ∀ b, ((holders.set i b).flatMap f).Perm (f b ++ rest) := by
  induction holders generalizing i with
  | nil => cases h
  | cons c cs ih =>
    cases i with
    | zero =>
      cases h
      exact ⟨cs.flatMap f, List.Perm.refl _, fun _ => List.Perm.refl _⟩
    | succ i =>
      obtain ⟨rest, hold, hnew⟩ := ih h
      have hpull : ∀ d : α, (f c ++ (f d ++ rest)).Perm (f d ++ (f c ++ rest)) := by
        intro d
        rw [← List.append_assoc, ← List.append_assoc]
        exact List.perm_append_comm.append_right rest
      exact ⟨f c ++ rest, (hold.append_left (f c)).trans (hpull a), fun b => ((hnew b).append_left (f c)).trans (hpull b)⟩
