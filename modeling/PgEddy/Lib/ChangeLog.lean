import Mathlib.Data.List.Nodup
import Mathlib.Data.List.Perm.Basic

/-!
# Keyed tables and change logs

A table whose rows have a key, and changes of one row each, which carry the old and the new image of the row. A replica applies
a change only if the old image is its own row; a table that is written row by row asks nothing. Where the changes fit what the
table is to hold, both do the same.
-/

namespace ChangeLog

/-! ## Keyed tables -/

section Keyed

variable {κ ρ : Type} (key : ρ → κ)

/-- No two rows have the same key, and the rows are those that satisfy `p`. -/
structure Holds (t : List ρ) (p : ρ → Prop) : Prop where
  unique : (t.map key).Nodup
  mem_iff : ∀ r, r ∈ t ↔ p r

variable {key} {t : List ρ} {p q : ρ → Prop}

theorem holds_nil (h : ∀ r, ¬p r) : Holds key ([] : List ρ) p where
  unique := List.nodup_nil
  mem_iff r := ⟨fun hr => absurd hr List.not_mem_nil, fun hr => absurd hr (h r)⟩

namespace Holds

theorem congr (h : Holds key t p) (hpq : ∀ r, q r ↔ p r) : Holds key t q where
  unique := h.unique
  mem_iff r := (h.mem_iff r).trans (hpq r).symm

theorem nodup (h : Holds key t p) : t.Nodup := List.Nodup.of_map key h.unique

/-- Two tables that hold the same rows are the same up to the order. -/
theorem perm {t' : List ρ} (h : Holds key t p) (h' : Holds key t' p) : t.Perm t' :=
  (List.perm_ext_iff_of_nodup h.nodup h'.nodup).mpr fun r => (h.mem_iff r).trans (h'.mem_iff r).symm

end Holds

variable [DecidableEq κ] (key)

/-- The row of a key. -/
def lookup (t : List ρ) (k : κ) : Option ρ := t.find? (fun r => key r == k)

/-- Delete the row of a key. -/
def remove (t : List ρ) (k : κ) : List ρ := t.filter (fun r => key r != k)

/-- Write a row: it takes the place of the row with its key, if there is one. -/
def upsert (t : List ρ) (r : ρ) : List ρ := remove key t (key r) ++ [r]

variable {key}

theorem mem_remove {r : ρ} {k : κ} : r ∈ remove key t k ↔ r ∈ t ∧ key r ≠ k := by
  simp [remove, List.mem_filter]

theorem mem_upsert {r new : ρ} : r ∈ upsert key t new ↔ (r ∈ t ∧ key r ≠ key new) ∨ r = new := by
  simp [upsert, mem_remove]

theorem remove_of_absent {k : κ} (h : ∀ r ∈ t, key r ≠ k) : remove key t k = t := by
  refine List.filter_eq_self.mpr fun r hr => ?_
  simpa using h r hr

theorem unique_remove (h : (t.map key).Nodup) (k : κ) : ((remove key t k).map key).Nodup :=
  h.sublist (List.filter_sublist.map key)

theorem unique_upsert (h : (t.map key).Nodup) (r : ρ) : ((upsert key t r).map key).Nodup := by
  rw [upsert, List.map_append, List.nodup_append]
  refine ⟨unique_remove h _, by simp, ?_⟩
  intro a ha b hb hab
  obtain ⟨d, hd, rfl⟩ := List.mem_map.mp ha
  simp only [List.map_cons, List.map_nil, List.mem_singleton] at hb
  exact (mem_remove.mp hd).2 (hab.trans hb)

namespace Holds

theorem remove (h : Holds key t p) (k : κ) : Holds key (remove key t k) (fun r => p r ∧ key r ≠ k) where
  unique := unique_remove h.unique k
  mem_iff r := by rw [mem_remove, h.mem_iff]

theorem upsert (h : Holds key t p) (new : ρ) : Holds key (upsert key t new) (fun r => (p r ∧ key r ≠ key new) ∨ r = new) where
  unique := unique_upsert h.unique new
  mem_iff r := by rw [mem_upsert, h.mem_iff]

/-- The row of a key is the one row with that key. -/
theorem lookup (h : Holds key t p) {r : ρ} (hr : p r) : lookup key t (key r) = some r := by
  cases hf : ChangeLog.lookup key t (key r) with
  | none =>
    have hne := List.find?_eq_none.mp hf r ((h.mem_iff r).mpr hr)
    simp at hne
  | some d =>
    have hd : key d = key r := by simpa using List.find?_some hf
    rw [List.inj_on_of_nodup_map h.unique (List.mem_of_find?_eq_some hf) ((h.mem_iff r).mpr hr) hd]

theorem lookup_none (h : Holds key t p) {k : κ} (hk : ∀ r, p r → key r ≠ k) : ChangeLog.lookup key t k = none := by
  refine List.find?_eq_none.mpr fun r hr => ?_
  simpa using hk r ((h.mem_iff r).mp hr)

end Holds

/-- Rows with different keys, written one after another, are all there. -/
theorem foldl_upsert {l : List ρ} : ∀ {t : List ρ}, ((t ++ l).map key).Nodup → l.foldl (upsert key) t = t ++ l := by
  induction l with
  | nil => intro t _; exact (List.append_nil t).symm
  | cons r l ih =>
    intro t h
    have hr : remove key t (key r) = t := by
      rw [List.map_append, List.nodup_append] at h
      exact remove_of_absent fun d hd => h.2.2 (key d) (List.mem_map_of_mem hd) (key r) (by simp)
    rw [List.foldl_cons, upsert, hr, ih (by simpa using h), List.append_assoc, List.singleton_append]

/-! ### Images that keep the keys -/

section Images

variable {σ : Type} {key' : σ → κ} {f : ρ → σ}

theorem map_remove (hf : ∀ r, key' (f r) = key r) (t : List ρ) (k : κ) :
    (remove key t k).map f = remove key' (t.map f) k := by
  simp only [remove, List.filter_map, Function.comp_def, hf]

theorem map_upsert (hf : ∀ r, key' (f r) = key r) (t : List ρ) (new : ρ) :
    (upsert key t new).map f = upsert key' (t.map f) (f new) := by
  rw [upsert, List.map_append, map_remove hf, upsert, hf, List.map_singleton]

end Images

end Keyed

/-! ## Change logs -/

/-- A change of one row. -/
inductive Change (ρ : Type) where
  | insert (new : ρ)
  | update (old new : ρ)
  | delete (old : ρ)

namespace Change

variable {κ ρ : Type} [DecidableEq κ] (key : ρ → κ)

/-- A change written into a table, whatever the table holds. -/
def write (t : List ρ) : Change ρ → List ρ
  | .insert new => upsert key t new
  | .update _ new => upsert key t new
  | .delete old => remove key t (key old)

/-- A change applied to a replica: the row inserted is new, and the old image is the row the replica has. -/
def apply [DecidableEq ρ] (t : List ρ) : Change ρ → Option (List ρ)
  | .insert new => if lookup key t (key new) = none then some (t ++ [new]) else none
  | .update old new =>
    if lookup key t (key old) = some old ∧ key new = key old then some (upsert key t new) else none
  | .delete old => if lookup key t (key old) = some old then some (remove key t (key old)) else none

/-- What a change makes of the rows there are. -/
def after (p : ρ → Prop) : Change ρ → ρ → Prop
  | .insert new, r => (p r ∧ key r ≠ key new) ∨ r = new
  | .update _ new, r => (p r ∧ key r ≠ key new) ∨ r = new
  | .delete old, r => p r ∧ key r ≠ key old

/-- A change that starts from the rows there are. -/
def Fits (p : ρ → Prop) : Change ρ → Prop
  | .insert new => ∀ r, p r → key r ≠ key new
  | .update old new => p old ∧ key new = key old
  | .delete old => p old

variable {key} {t : List ρ} {p : ρ → Prop}

theorem holds_write (h : Holds key t p) (c : Change ρ) : Holds key (c.write key t) (c.after key p) := by
  cases c with
  | insert new => exact h.upsert new
  | update old new => exact h.upsert new
  | delete old => exact h.remove _

/-- A replica takes every change that fits, and does with it what a write does. -/
theorem apply_eq_write [DecidableEq ρ] (h : Holds key t p) {c : Change ρ} (hc : c.Fits key p) :
    c.apply key t = some (c.write key t) := by
  cases c with
  | insert new =>
    have hkeep : remove key t (key new) = t := remove_of_absent fun r hr => hc r ((h.mem_iff r).mp hr)
    simp only [apply, write, upsert, h.lookup_none hc, hkeep, if_true]
  | update old new => simp only [apply, write, h.lookup hc.1, hc.2, and_self, if_true]
  | delete old => simp only [apply, write, h.lookup hc, if_true]

end Change

end ChangeLog
