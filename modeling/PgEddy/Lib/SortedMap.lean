import Mathlib.Algebra.Order.Ring.Int
import Mathlib.Order.Defs.LinearOrder
import Mathlib.Data.List.Basic

/-!
# Maps as lists of entries in the order of their keys

The iteration order of an ordered map, made its representation: a list of entries whose keys go up. Two such lists with the
same entries are the same list, so equality of maps is equality of lists.
-/

namespace SortedMap

variable {κ β : Type} [LinearOrder κ]

/-- The keys of the entries go up. -/
def Sorted (entries : List (κ × β)) : Prop := entries.Pairwise fun a b => a.1 < b.1

instance (entries : List (κ × β)) : Decidable (Sorted entries) := inferInstanceAs (Decidable (List.Pairwise _ _))

/-- The map with one key set to a value, whatever it was before. -/
def insert (k : κ) (v : β) : List (κ × β) → List (κ × β)
  | [] => [(k, v)]
  | (k', v') :: rest =>
    if k < k' then (k, v) :: (k', v') :: rest
    else if k = k' then (k, v) :: rest
    else (k', v') :: insert k v rest

theorem mem_insert {k : κ} {v : β} {l : List (κ × β)} {e : κ × β} (h : e ∈ insert k v l) : e = (k, v) ∨ e ∈ l := by
  induction l with
  | nil => exact Or.inl (List.mem_singleton.mp h)
  | cons e' l ih =>
    unfold insert at h
    split at h
    · exact List.mem_cons.mp h
    · split at h
      · exact (List.mem_cons.mp h).imp_right (List.mem_cons_of_mem _)
      · rcases List.mem_cons.mp h with he | he
        · exact Or.inr (he ▸ List.mem_cons_self)
        · exact (ih he).imp_right (List.mem_cons_of_mem _)

theorem mem_insert_self (k : κ) (v : β) (l : List (κ × β)) : (k, v) ∈ insert k v l := by
  induction l with
  | nil => exact List.mem_singleton_self _
  | cons e l ih =>
    unfold insert
    split
    · exact List.mem_cons_self
    · split
      · exact List.mem_cons_self
      · exact List.mem_cons_of_mem _ ih

theorem length_insert_le (k : κ) (v : β) (l : List (κ × β)) : (insert k v l).length ≤ l.length + 1 := by
  induction l with
  | nil => exact Nat.le_refl _
  | cons e l ih =>
    unfold insert
    split
    · exact Nat.le_refl _
    · split
      · exact Nat.le_succ _
      · exact Nat.succ_le_succ ih

/-- Setting a key keeps the order. -/
theorem Sorted.insert {l : List (κ × β)} (h : Sorted l) (k : κ) (v : β) : Sorted (insert k v l) := by
  induction l with
  | nil => exact List.pairwise_singleton _ _
  | cons e l ih =>
    obtain ⟨hhead, htail⟩ := List.pairwise_cons.mp h
    unfold SortedMap.insert
    split
    · rename_i hlt
      refine List.pairwise_cons.mpr ⟨fun e' he' => ?_, h⟩
      rcases List.mem_cons.mp he' with rfl | he'
      · exact hlt
      · exact lt_trans hlt (hhead e' he')
    · split
      · rename_i heq
        exact List.pairwise_cons.mpr ⟨fun e' he' => heq ▸ hhead e' he', htail⟩
      · rename_i hge hne
        refine List.pairwise_cons.mpr ⟨fun e' he' => ?_, ih htail⟩
        rcases mem_insert he' with rfl | he'
        · exact lt_of_le_of_ne (not_lt.mp hge) fun he => hne he.symm
        · exact hhead e' he'

/-- A key above every other goes last. -/
theorem insert_last {l : List (κ × β)} {k : κ} (v : β) (h : ∀ e ∈ l, e.1 < k) : insert k v l = l ++ [(k, v)] := by
  induction l with
  | nil => rfl
  | cons e l ih =>
    have hlt := h e List.mem_cons_self
    unfold insert
    rw [if_neg (lt_asymm hlt), if_neg (ne_of_gt hlt), ih fun e' he' => h e' (List.mem_cons_of_mem _ he'), List.cons_append]

/-- No key occurs twice. -/
theorem Sorted.nodup_keys {l : List (κ × β)} (h : Sorted l) : (l.map (·.1)).Nodup :=
  List.pairwise_map.mpr (h.imp fun hlt => ne_of_lt hlt)

theorem mem_of_lookup [BEq κ] [LawfulBEq κ] {l : List (κ × β)} {k : κ} {v : β} (h : l.lookup k = some v) : (k, v) ∈ l := by
  obtain ⟨before, after, rfl, -⟩ := List.lookup_eq_some_iff.mp h
  exact List.mem_append_right _ List.mem_cons_self

/-- An entry is found under its key. -/
theorem Sorted.lookup_of_mem [BEq κ] [LawfulBEq κ] {l : List (κ × β)} (h : Sorted l) {e : κ × β} (he : e ∈ l) :
    l.lookup e.1 = some e.2 := by
  obtain ⟨before, after, rfl⟩ := List.append_of_mem he
  refine List.lookup_eq_some_iff.mpr ⟨before, after, rfl, fun e' he' => ?_⟩
  have hlt : e'.1 < e.1 := (List.pairwise_append.mp h).2.2 e' he' e List.mem_cons_self
  exact bne_iff_ne.mpr (ne_of_gt hlt)

theorem Sorted.append_left {l r : List (κ × β)} (h : Sorted (l ++ r)) : Sorted l := (List.pairwise_append.mp h).1

theorem Sorted.append_right {l r : List (κ × β)} (h : Sorted (l ++ r)) : Sorted r := (List.pairwise_append.mp h).2.1

/-- Setting the next key of entries in order adds it at the end. -/
theorem Sorted.insert_next {done rest : List (κ × β)} {k : κ} {v : β} (h : Sorted (done ++ (k, v) :: rest)) :
    SortedMap.insert k v done = done ++ [(k, v)] :=
  insert_last v fun e he => (List.pairwise_append.mp h).2.2 e he (k, v) List.mem_cons_self

end SortedMap
