import Std.Data.ExtTreeMap

/-!
# Environments that keep their bindings

An environment keeps the bindings of another if every name the other binds is bound to the same in it, up to a given relation on
values. Here: what setting names and joining environments does to the bindings of an environment that is kept so far.
-/

namespace Bindings

open Std

variable {κ β : Type} [Ord κ] [TransOrd κ] [LawfulEqOrd κ] (same : β → β → Prop)

/-- On these names every binding of the one environment is in the other, up to a relation. -/
def KeepsOn (names : κ → Prop) (m m' : ExtTreeMap κ β) : Prop :=
  ∀ x, names x → ∀ v, m[x]? = some v → ∃ w, m'[x]? = some w ∧ same v w

/-- Every binding of the one environment is in the other, up to a relation. -/
def Keeps (m m' : ExtTreeMap κ β) : Prop := KeepsOn same (fun _ => True) m m'

variable {same}

omit [LawfulEqOrd κ] in
theorem keepsOn_self (hsame : ∀ v, same v v) (names : κ → Prop) (m : ExtTreeMap κ β) : KeepsOn same names m m :=
  fun _ _ v hv => ⟨v, hv, hsame v⟩

/-- A name that is set is kept if its old binding is the same. The other names are kept if they were. -/
theorem keepsOn_insert {names : κ → Prop} {m m' : ExtTreeMap κ β} {k : κ} {w : β} :
    KeepsOn same names m (m'.insert k w) ↔
      KeepsOn same (fun x => names x ∧ x ≠ k) m m' ∧ (names k → ∀ v, m[k]? = some v → same v w) := by
  constructor
  · refine fun h => ⟨fun x hx v hv => ?_, fun hk v hv => ?_⟩
    · have hget := h x hx.1 v hv
      rwa [ExtTreeMap.getElem?_insert, if_neg fun heq => hx.2 (LawfulEqOrd.eq_of_compare heq).symm] at hget
    · obtain ⟨u, hu, hsame⟩ := h k hk v hv
      rw [ExtTreeMap.getElem?_insert_self] at hu
      cases hu
      exact hsame
  · rintro ⟨hrest, hk⟩ x hx v hv
    rw [ExtTreeMap.getElem?_insert]
    split
    · rename_i heq
      cases LawfulEqOrd.eq_of_compare heq
      exact ⟨w, rfl, hk hx v hv⟩
    · rename_i hne
      exact hrest x ⟨hx, fun heq => hne (heq ▸ ReflOrd.compare_self)⟩ v hv

/-- A name that is set only if it is not bound changes no binding. -/
theorem keepsOn_insertIfNew {names : κ → Prop} {m : ExtTreeMap κ β} {k : κ} {w : β} (hsame : ∀ v, same v v) :
    KeepsOn same names m (m.insertIfNew k w) := by
  intro x _ v hv
  rw [ExtTreeMap.getElem?_insertIfNew, if_neg, hv]
  · exact ⟨v, rfl, hsame v⟩
  · rintro ⟨heq, hk⟩
    cases LawfulEqOrd.eq_of_compare heq
    exact hk (ExtTreeMap.isSome_getElem?_iff_mem.mp (hv ▸ rfl))

omit [LawfulEqOrd κ] in
/-- An environment joined under another is kept if they agree on the names they share. -/
theorem keeps_union {m n : ExtTreeMap κ β} (hsame : ∀ v, same v v) :
    Keeps same m (m ∪ n) ↔ ∀ (x : κ) (v w : β), m[x]? = some v → n[x]? = some w → same v w := by
  constructor
  · intro h x v w hv hw
    obtain ⟨u, hu, huv⟩ := h x trivial v hv
    rw [ExtTreeMap.getElem?_union, hw] at hu
    cases hu
    exact huv
  · intro h x _ v hv
    rw [ExtTreeMap.getElem?_union, hv]
    cases hw : n[x]? with
    | none => exact ⟨v, rfl, hsame v⟩
    | some w => exact ⟨w, rfl, h x v w hv hw⟩

end Bindings
