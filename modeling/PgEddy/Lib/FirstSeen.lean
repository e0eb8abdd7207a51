import Mathlib.Data.List.Induction
import Mathlib.Data.List.Nodup

/-!
# First occurrences and groups

Of a list, the elements whose key was not seen before them; and the elements of each key, in the order in which the keys are
first seen.
-/

namespace FirstSeen

variable {α κ : Type} [DecidableEq κ] (key : α → κ)

/-! ## First occurrences -/

/-- The elements that bring a key not seen yet. -/
def retainNew : List α → List κ → List α
  | [], _ => []
  | a :: as, seen => if key a ∈ seen then retainNew as seen else a :: retainNew as (key a :: seen)

variable {key}

/-- What was seen counts as a set. -/
theorem retainNew_congr (as : List α) : ∀ {seen seen' : List κ}, (∀ k, k ∈ seen ↔ k ∈ seen') →
    retainNew key as seen = retainNew key as seen' := by
  induction as with
  | nil => intro _ _ _; rfl
  | cons a as ih =>
    intro seen seen' h
    unfold retainNew
    by_cases ha : key a ∈ seen
    · rw [if_pos ha, if_pos ((h _).mp ha), ih h]
    · rw [if_neg ha, if_neg (fun ha' => ha ((h _).mpr ha')), @ih _ (key a :: seen')]
      intro k
      simp [h k]

theorem retainNew_append (as bs : List α) : ∀ seen : List κ,
    retainNew key (as ++ bs) seen = retainNew key as seen ++ retainNew key bs (as.map key ++ seen) := by
  induction as with
  | nil => intro seen; rfl
  | cons a as ih =>
    intro seen
    rw [List.cons_append, retainNew, retainNew]
    by_cases ha : key a ∈ seen
    · rw [if_pos ha, if_pos ha, ih seen]
      refine congrArg _ (retainNew_congr bs fun k => ?_)
      simp only [List.map_cons, List.cons_append, List.mem_cons, List.mem_append]
      refine ⟨.inr, fun hk => hk.elim (fun heq => .inr (heq ▸ ha)) id⟩
    · rw [if_neg ha, if_neg ha, ih, List.cons_append]
      refine congrArg _ (congrArg _ (retainNew_congr bs fun k => ?_))
      simp only [List.map_cons, List.cons_append, List.mem_cons, List.mem_append]
      exact or_left_comm

theorem retainNew_sublist (as : List α) : ∀ seen : List κ, (retainNew key as seen).Sublist as := by
  induction as with
  | nil => intro seen; exact List.Sublist.refl _
  | cons a as ih =>
    intro seen
    unfold retainNew
    split
    · exact (ih _).cons _
    · exact (ih _).cons_cons _

/-- What is kept was not seen before. -/
theorem notMem_of_mem_retainNew {as : List α} : ∀ {seen : List κ} {a : α}, a ∈ retainNew key as seen → key a ∉ seen := by
  induction as with
  | nil => intro seen a h; simp [retainNew] at h
  | cons b as ih =>
    intro seen a h
    unfold retainNew at h
    by_cases hb : key b ∈ seen
    · rw [if_pos hb] at h
      exact ih h
    · rw [if_neg hb, List.mem_cons] at h
      obtain rfl | h := h
      · exact hb
      · exact fun hmem => ih h (List.mem_cons_of_mem _ hmem)

/-- No key is kept twice. -/
theorem nodup_retainNew (as : List α) : ∀ seen : List κ, ((retainNew key as seen).map key).Nodup := by
  induction as with
  | nil => intro seen; exact List.nodup_nil
  | cons a as ih =>
    intro seen
    unfold retainNew
    split
    · exact ih _
    · rw [List.map_cons, List.nodup_cons]
      refine ⟨fun hmem => ?_, ih _⟩
      obtain ⟨b, hb, hkey⟩ := List.mem_map.mp hmem
      exact notMem_of_mem_retainNew hb (hkey ▸ List.mem_cons_self)

/-- Every key that was not seen before is kept. -/
theorem retainNew_covers {as : List α} : ∀ {seen : List κ} {a : α}, a ∈ as → key a ∉ seen →
    ∃ b ∈ retainNew key as seen, key b = key a := by
  induction as with
  | nil => intro seen a h; simp at h
  | cons c as ih =>
    intro seen a h hnew
    unfold retainNew
    by_cases hc : key c ∈ seen
    · rw [if_pos hc]
      obtain rfl | h := List.mem_cons.mp h
      · exact absurd hc hnew
      · exact ih h hnew
    · rw [if_neg hc]
      by_cases hac : key a = key c
      · exact ⟨c, List.mem_cons_self, hac.symm⟩
      · have ha : a ∈ as := (List.mem_cons.mp h).resolve_left fun heq => hac (congrArg key heq)
        obtain ⟨b, hb, hkey⟩ := @ih (key c :: seen) _ ha (by simp [hac, hnew])
        exact ⟨b, List.mem_cons_of_mem _ hb, hkey⟩

/-- In a list in an order the element kept for a key is not behind the others of the key. -/
theorem retainNew_first {R : α → α → Prop} {as : List α} : ∀ {seen : List κ} {a : α}, as.Pairwise R → (∀ b ∈ as, R b b) → a ∈ as →
    key a ∉ seen → ∃ b ∈ retainNew key as seen, key b = key a ∧ R b a := by
  induction as with
  | nil => intro seen a _ _ h; simp at h
  | cons c as ih =>
    intro seen a hR hrefl h hnew
    obtain ⟨hc, hrest⟩ := List.pairwise_cons.mp hR
    have hrefl' : ∀ b ∈ as, R b b := fun b hb => hrefl b (List.mem_cons_of_mem _ hb)
    unfold retainNew
    by_cases hseen : key c ∈ seen
    · rw [if_pos hseen]
      obtain rfl | h := List.mem_cons.mp h
      · exact absurd hseen hnew
      · exact ih hrest hrefl' h hnew
    · rw [if_neg hseen]
      by_cases hkey : key c = key a
      · refine ⟨c, List.mem_cons_self, hkey, ?_⟩
        obtain rfl | h := List.mem_cons.mp h
        · exact hrefl _ List.mem_cons_self
        · exact hc a h
      · have ha : a ∈ as := (List.mem_cons.mp h).resolve_left fun heq => hkey (congrArg key heq.symm)
        obtain ⟨b, hb, hba, hRba⟩ := @ih (key c :: seen) _ hrest hrefl' ha (by simp [Ne.symm hkey, hnew])
        exact ⟨b, List.mem_cons_of_mem _ hb, hba, hRba⟩

/-- The keys that are kept are the keys of the list that were not seen. -/
theorem mem_keys_retainNew {as : List α} {seen : List κ} {k : κ} :
    k ∈ (retainNew key as seen).map key ↔ k ∈ as.map key ∧ k ∉ seen := by
  constructor
  · intro h
    obtain ⟨a, ha, rfl⟩ := List.mem_map.mp h
    exact ⟨List.mem_map_of_mem ((retainNew_sublist as seen).subset ha), notMem_of_mem_retainNew ha⟩
  · rintro ⟨h, hnew⟩
    obtain ⟨a, ha, rfl⟩ := List.mem_map.mp h
    obtain ⟨b, hb, hkey⟩ := retainNew_covers ha hnew
    exact List.mem_map.mpr ⟨b, hb, hkey⟩

/-- Dropping what was seen from a tail first changes nothing. -/
theorem retainNew_append_retainNew (as bs : List α) :
    retainNew key (as ++ retainNew key bs []) [] = retainNew key (as ++ bs) [] := by
  rw [retainNew_append, retainNew_append]
  refine congrArg _ ?_
  generalize as.map key ++ [] = seen
  -- Whatever is seen before the tail, or inside it on the way.
  have hgen : ∀ (bs : List α) (seen inner : List κ), (∀ k ∈ inner, k ∈ seen) →
      retainNew key (retainNew key bs inner) seen = retainNew key bs seen := by
    intro bs
    induction bs with
    | nil => intro _ _ _; rfl
    | cons b bs ih =>
      intro seen inner hinner
      by_cases hb : key b ∈ inner
      · rw [retainNew, if_pos hb, ih seen inner hinner]
        conv => rhs; rw [retainNew, if_pos (hinner _ hb)]
      · rw [show retainNew key (b :: bs) inner = b :: retainNew key bs (key b :: inner) by rw [retainNew, if_neg hb]]
        by_cases hs : key b ∈ seen
        · rw [retainNew, if_pos hs, retainNew, if_pos hs]
          refine ih seen _ fun k hk => ?_
          obtain rfl | hk := List.mem_cons.mp hk
          · exact hs
          · exact hinner k hk
        · rw [retainNew, if_neg hs, retainNew, if_neg hs]
          refine congrArg _ (ih _ _ fun k hk => ?_)
          obtain rfl | hk := List.mem_cons.mp hk
          · exact List.mem_cons_self
          · exact List.mem_cons_of_mem _ (hinner k hk)
  exact hgen bs seen [] (by simp)

/-! ## Groups -/

section

variable (key)

/-- One more element of a key. -/
def addTo (k : κ) (a : α) : List (κ × List α) → List (κ × List α)
  | [] => [(k, [a])]
  | (k', as) :: rest => if k' = k then (k', as ++ [a]) :: rest else (k', as) :: addTo k a rest

/-- The groups of a list, in the order in which their keys are first seen. -/
def groups (as : List α) : List (κ × List α) := as.foldl (fun gs a => addTo (key a) a gs) []

/-- The elements of a key. -/
def classOf (as : List α) (k : κ) : List α := as.filter fun a => key a = k

end

theorem groups_append_singleton (as : List α) (a : α) : groups key (as ++ [a]) = addTo (key a) a (groups key as) := by
  simp [groups]

/-- A new key gets a group of its own. -/
theorem addTo_of_notMem {k : κ} {a : α} {gs : List (κ × List α)} (h : k ∉ gs.map Prod.fst) :
    addTo k a gs = gs ++ [(k, [a])] := by
  induction gs with
  | nil => rfl
  | cons g gs ih =>
    rw [List.map_cons, List.mem_cons, not_or] at h
    rw [addTo, if_neg (Ne.symm h.1), ih h.2, List.cons_append]

/-- A group whose key is there takes the element in. -/
theorem addTo_map {k : κ} {a : α} {ks : List κ} (hk : k ∈ ks) (hnodup : ks.Nodup) (f : κ → List α) :
    addTo k a (ks.map fun k' => (k', f k')) = ks.map fun k' => (k', if k' = k then f k' ++ [a] else f k') := by
  induction ks with
  | nil => simp at hk
  | cons k' ks ih =>
    rw [List.nodup_cons] at hnodup
    rw [List.map_cons, List.map_cons, addTo]
    by_cases heq : k' = k
    · subst heq
      rw [if_pos rfl, if_pos rfl]
      refine congrArg _ (List.map_congr_left fun k₂ hk₂ => ?_)
      rw [if_neg fun h₂ : k₂ = k' => hnodup.1 (h₂ ▸ hk₂)]
    · rw [if_neg heq, if_neg heq, ih ((List.mem_cons.mp hk).resolve_left (Ne.symm heq)) hnodup.2]

/-- Each group is its key with the elements of the key, and the keys stand in the order in which they are first seen. -/
theorem groups_eq (as : List α) :
    groups key as = ((retainNew key as []).map key).map fun k => (k, classOf key as k) := by
  induction as using List.reverseRecOn with
  | nil => rfl
  | append_singleton as a ih =>
    have hsplit : ∀ k, classOf key (as ++ [a]) k = if k = key a then classOf key as k ++ [a] else classOf key as k := by
      intro k
      by_cases hk : key a = k
      · simp [classOf, hk]
      · simp [classOf, hk, Ne.symm hk]
    rw [groups_append_singleton, ih, retainNew_append]
    simp only [List.append_nil, hsplit]
    by_cases hseen : key a ∈ as.map key
    · rw [show retainNew key [a] (as.map key) = [] by rw [retainNew, if_pos hseen, retainNew], List.append_nil]
      exact addTo_map (mem_keys_retainNew.mpr ⟨hseen, by simp⟩) (nodup_retainNew as []) _
    · have hnew : key a ∉ (retainNew key as []).map key := fun h => hseen (mem_keys_retainNew.mp h).1
      rw [show retainNew key [a] (as.map key) = [a] by rw [retainNew, if_neg hseen, retainNew],
        addTo_of_notMem (by simpa using hnew)]
      rw [List.map_append, List.map_append]
      refine congrArg₂ _ (List.map_congr_left fun k hk => ?_) ?_
      · rw [if_neg fun h : k = key a => hnew (h ▸ hk)]
      · have hempty : classOf key as (key a) = [] := by
          refine List.filter_eq_nil_iff.mpr fun b hb => ?_
          simp only [decide_eq_true_eq]
          exact fun h => hseen (h ▸ List.mem_map_of_mem hb)
        simp [hempty]

/-- Every element is in exactly one group. -/
theorem perm_groups (as : List α) : ((groups key as).flatMap Prod.snd).Perm as := by
  rw [groups_eq, List.flatMap_map]
  have hcount : ∀ ks : List κ, ks.Nodup → (ks.flatMap (classOf key as)).Perm (as.filter fun a => key a ∈ ks) := by
    intro ks hnodup
    induction ks with
    | nil => simp
    | cons k ks ih =>
      rw [List.nodup_cons] at hnodup
      rw [List.flatMap_cons]
      refine ((ih hnodup.2).append_left _).trans ?_
      have hmem : (as.filter fun a => key a ∈ k :: ks) = as.filter fun a => key a = k || key a ∈ ks := by
        refine List.filter_congr fun a _ => ?_
        simp
      rw [hmem]
      refine (List.filter_append_perm (fun a => decide (key a = k)) _).symm.trans ?_ |>.symm
      rw [List.filter_filter, List.filter_filter]
      refine (List.Perm.of_eq ?_).append (List.Perm.of_eq ?_)
      · refine List.filter_congr fun a _ => ?_
        by_cases h : key a = k <;> simp [h]
      · refine List.filter_congr fun a _ => ?_
        by_cases h : key a = k
        · simp [h, hnodup.1]
        · simp [h]
  refine (hcount _ (nodup_retainNew as [])).trans (List.Perm.of_eq (List.filter_eq_self.mpr fun a ha => ?_))
  simpa using mem_keys_retainNew.mpr ⟨List.mem_map_of_mem ha, by simp⟩

end FirstSeen
