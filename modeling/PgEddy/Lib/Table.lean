import Mathlib.Data.List.Nodup

/-!
# Tables

A table is a list of rows without an order that means anything. `Holds t p` says that the table holds exactly the rows that
satisfy `p`, each once, and the rules say what inserting and deleting rows makes of that.
-/

namespace Table

variable {ρ : Type} {t : List ρ} {p q : ρ → Prop}

/-- The table holds the rows that satisfy `p` and no others, and none of them twice. -/
structure Holds (t : List ρ) (p : ρ → Prop) : Prop where
  nodup : t.Nodup
  mem_iff : ∀ r, r ∈ t ↔ p r

theorem holds_nil (h : ∀ r, ¬p r) : Holds ([] : List ρ) p where
  nodup := List.nodup_nil
  mem_iff r := ⟨fun hr => absurd hr List.not_mem_nil, fun hr => absurd hr (h r)⟩

namespace Holds

theorem congr (h : Holds t p) (hpq : ∀ r, p r ↔ q r) : Holds t q where
  nodup := h.nodup
  mem_iff r := (h.mem_iff r).trans (hpq r)

theorem perm {t' : List ρ} (h : Holds t p) (hperm : t'.Perm t) : Holds t' p where
  nodup := hperm.nodup_iff.mpr h.nodup
  mem_iff r := hperm.mem_iff.trans (h.mem_iff r)

/-- Rows that the table does not hold are inserted. -/
theorem insert (h : Holds t p) {new : List ρ} (hnew : new.Nodup) (hfresh : ∀ r ∈ new, ¬p r) :
    Holds (t ++ new) (fun r => p r ∨ r ∈ new) where
  nodup := by
    apply List.nodup_append.mpr
    refine ⟨h.nodup, hnew, ?_⟩
    intro a ha b hb hab
    exact hfresh b hb ((h.mem_iff b).mp (hab ▸ ha))
  mem_iff r := by rw [List.mem_append, h.mem_iff r]

/-- The rows that fail a test are deleted. -/
theorem delete (h : Holds t p) (keep : ρ → Bool) : Holds (t.filter keep) (fun r => p r ∧ keep r = true) where
  nodup := h.nodup.filter keep
  mem_iff r := by rw [List.mem_filter, h.mem_iff r]

end Holds

end Table
