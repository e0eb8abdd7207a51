import PgEddy.Lemmas.Comparisons
import PgEddy.Lib.Binary64Order
import PgEddy.Lib.Chained
import PgEddy.Lib.StableSort
import PgEddy.Projection

/-!
# The order of plain values

`ORDER BY`, `min` and `max` go by `value_ordering`. Among values without temporal values, durations and integers that a float
cannot hold, and lists of such values, it is an order: a sort by it does not depend on the order of the rows.
-/

namespace PgEddy

open Binary64 Chained StableSort

/-! ## Plain values -/

section

variable {ch : Chrono}

/-- Neither a temporal value nor a duration nor a list, and no integer that a float cannot hold. -/
def PlainScalar : Value ch → Prop
  | .int i => i.toInt.natAbs < 2 ^ 53
  | .temporal _ | .duration _ => False
  | .json (.object _) => True
  | .json _ => False
  | _ => True

variable (ch)

mutual

/-- The item of a list is read as a plain value. -/
def PlainItem : Json → Prop
  | .array xs => isPathArray xs = true ∨ PlainItems xs
  | x => ∃ v : Value ch, readJson ch x = .ok v ∧ PlainScalar v

def PlainItems : List Json → Prop
  | [] => True
  | x :: xs => PlainItem x ∧ PlainItems xs

end

variable {ch}

/-- A plain scalar, or a list of plain items. -/
def PlainValue : Value ch → Prop
  | .json (.array xs) => PlainItems ch xs
  | v => PlainScalar v

end

namespace PlainOrderAux

open Comparison

variable {ch : Chrono} (cal : Calendar ch)

theorem plainItems_iff {xs : List Json} : PlainItems ch xs ↔ ∀ x ∈ xs, PlainItem ch x := by
  induction xs with
  | nil => simp [PlainItems]
  | cons x xs ih => rw [PlainItems, ih, List.forall_mem_cons]

/-! ## Items and their values -/

/-- The items of an array that looks like a path are read. -/
theorem jsonToValues_of_isPathFrom {even : Bool} {xs : List Json} (h : isPathFrom even xs = true) :
    ∃ vals, jsonToValues ch xs = .ok vals := by
  induction xs generalizing even with
  | nil => exact ⟨[], rfl⟩
  | cons x xs ih =>
    rw [isPathFrom, Bool.and_eq_true] at h
    obtain ⟨vals, hvals⟩ := ih h.2
    cases x with
    | object m =>
      refine ⟨objectValue m :: vals, ?_⟩
      rw [jsonToValues, hvals]
      rfl
    | null | bool | number | string | array => exact absurd h.1 (by simp [isPathElement])

/-- A plain item has a plain value, and it is a list only for an array. -/
theorem value_of_plainItem {x : Json} (h : PlainItem ch x) :
    ∃ v : Value ch, readJson ch x = .ok v ∧ PlainValue v ∧
      ∀ xs, v = .json (.array xs) → x = .array xs ∧ isPathArray xs = false := by
  have hscalar : ∀ {v : Value ch}, PlainScalar v → PlainValue v ∧ ∀ xs, v ≠ .json (.array xs) := by
    intro v hv
    unfold PlainValue
    split
    · exact absurd hv (by simp [PlainScalar])
    · next hne => exact ⟨hv, hne⟩
  cases x with
  | array xs =>
    by_cases hpath : isPathArray xs = true
    · obtain ⟨vals, hvals⟩ := @jsonToValues_of_isPathFrom ch true xs ((Bool.and_eq_true _ _).mp hpath).2
      refine ⟨.path (deinterleave vals).1 (deinterleave vals).2, ?_, trivial, nofun⟩
      rw [readJson, jsonToValue, if_pos hpath, hvals]
      rfl
    · rw [PlainItem] at h
      refine ⟨.json (.array xs), ?_, h.resolve_left hpath, fun ys hys => ?_⟩
      · rw [readJson, jsonToValue, if_neg hpath]
      · cases hys
        exact ⟨rfl, Bool.of_not_eq_true hpath⟩
  | null | bool | number | string | object =>
    rw [PlainItem] at h
    · obtain ⟨v, hread, hv⟩ := h
      exact ⟨v, hread, (hscalar hv).1, fun xs hxs => absurd hxs ((hscalar hv).2 xs)⟩
    · nofun

/-- The order of values that are not two lists. -/
theorem valueOrdering_scalar {v w : Value ch} (h : ¬∃ xs ys, v = .json (.array xs) ∧ w = .json (.array ys)) :
    valueOrdering cal v w = .ok (scalarOrdering cal v w) := by
  rw [valueOrdering]
  exact fun xs ys hv hw => h ⟨xs, ys, hv, hw⟩

/-- Plain items are compared as their values. -/
theorem itemOrdering_eq {x y : Json} {v w : Value ch} (hx : readJson ch x = .ok v) (hy : readJson ch y = .ok w)
    (hxv : ∀ xs, v = .json (.array xs) → x = .array xs ∧ isPathArray xs = false)
    (hyw : ∀ ys, w = .json (.array ys) → y = .array ys ∧ isPathArray ys = false) :
    itemOrdering cal x y = valueOrdering cal v w := by
  by_cases hlists : ∃ xs ys, v = .json (.array xs) ∧ w = .json (.array ys)
  · obtain ⟨xs, ys, rfl, rfl⟩ := hlists
    obtain ⟨rfl, hxs⟩ := hxv xs rfl
    obtain ⟨rfl, hys⟩ := hyw ys rfl
    rw [itemOrdering, hxs, hys]
    rfl
  · rw [valueOrdering_scalar cal hlists]
    have hread : (do
        let av ← readJson ch x
        let bv ← readJson ch y
        return scalarOrdering cal av bv : Exec Ordering) = .ok (scalarOrdering cal v w) := by
      rw [hx, hy]
      rfl
    by_cases harrays : ∃ xs ys, x = .array xs ∧ y = .array ys
    · obtain ⟨xs, ys, rfl, rfl⟩ := harrays
      rw [itemOrdering]
      split
      · exact hread
      · next hpath =>
        -- Both arrays would be lists.
        rw [Bool.not_eq_true, Bool.or_eq_false_iff] at hpath
        rw [readJson, jsonToValue, hpath.1, if_neg Bool.false_ne_true] at hx
        rw [readJson, jsonToValue, hpath.2, if_neg Bool.false_ne_true] at hy
        exact absurd ⟨xs, ys, (Except.ok.inj hx).symm, (Except.ok.inj hy).symm⟩ hlists
    · rw [itemOrdering]
      · exact hread
      · exact fun xs ys hxs hys => harrays ⟨xs, ys, hxs, hys⟩

/-! ## The comparison answers -/

/-- The answer of the comparison. -/
def orderOf (a b : Value ch) : Ordering :=
  match valueOrdering cal a b with
  | .ok o => o
  | .error _ => .eq

/-- The answer of the comparison of two lists. -/
def listOrderOf (xs ys : List Json) : Ordering :=
  match listOrdering cal xs ys with
  | .ok o => o
  | .error _ => .eq

theorem listOrdering_answers {xs : List Json}
    (h : ∀ x ∈ xs, ∀ y, PlainItem ch y → ∃ o, itemOrdering cal x y = .ok o) :
    ∀ ys, (∀ y ∈ ys, PlainItem ch y) → ∃ o, listOrdering cal xs ys = .ok o := by
  induction xs with
  | nil =>
    intro ys _
    cases ys <;> exact ⟨_, rfl⟩
  | cons x xs ih =>
    intro ys hys
    cases ys with
    | nil => exact ⟨_, rfl⟩
    | cons y ys =>
      obtain ⟨o, ho⟩ := h x List.mem_cons_self y (hys y List.mem_cons_self)
      obtain ⟨rest, hrest⟩ := ih (fun x hx => h x (List.mem_cons_of_mem _ hx)) ys fun y hy => hys y (List.mem_cons_of_mem _ hy)
      rw [listOrdering, ho]
      cases o with
      | lt => exact ⟨.lt, rfl⟩
      | gt => exact ⟨.gt, rfl⟩
      | eq => exact ⟨rest, hrest⟩

theorem itemOrdering_answers (x : Json) : PlainItem ch x → ∀ y, PlainItem ch y → ∃ o, itemOrdering cal x y = .ok o := by
  have hscalar : ∀ {x y : Json} {v w : Value ch}, readJson ch x = .ok v → readJson ch y = .ok w →
      (∀ xs, v = .json (.array xs) → x = .array xs ∧ isPathArray xs = false) →
      (∀ ys, w = .json (.array ys) → y = .array ys ∧ isPathArray ys = false) →
      (¬∃ xs ys, v = .json (.array xs) ∧ w = .json (.array ys)) → ∃ o, itemOrdering cal x y = .ok o := by
    intro x y v w hx hy hxv hyw hne
    rw [itemOrdering_eq cal hx hy hxv hyw, valueOrdering_scalar cal hne]
    exact ⟨_, rfl⟩
  induction x using Json.tree_induction with
  | null | bool | number | string | object =>
    intro hx y hy
    obtain ⟨v, hread, -, hxv⟩ := value_of_plainItem hx
    obtain ⟨w, hread', -, hyw⟩ := value_of_plainItem hy
    refine hscalar hread hread' hxv hyw ?_
    rintro ⟨xs, ys, hv, -⟩
    nomatch (hxv xs hv).1
  | array xs ih =>
    intro hx y hy
    obtain ⟨v, hread, hv, hxv⟩ := value_of_plainItem hx
    obtain ⟨w, hread', hw, hyw⟩ := value_of_plainItem hy
    by_cases hlists : ∃ xs ys, v = .json (.array xs) ∧ w = .json (.array ys)
    · obtain ⟨xs', ys, rfl, rfl⟩ := hlists
      cases (hxv xs' rfl).1
      rw [itemOrdering_eq cal hread hread' hxv hyw]
      rw [PlainValue, plainItems_iff] at hv hw
      exact listOrdering_answers cal (fun x hx => ih x hx (hv x hx)) ys hw
    · exact hscalar hread hread' hxv hyw hlists

/-- Among plain values the comparison answers. -/
theorem valueOrdering_answers {a b : Value ch} (ha : PlainValue a) (hb : PlainValue b) :
    valueOrdering cal a b = .ok (orderOf cal a b) := by
  have hsome : ∃ o, valueOrdering cal a b = .ok o := by
    by_cases hlists : ∃ xs ys, a = .json (.array xs) ∧ b = .json (.array ys)
    · obtain ⟨xs, ys, rfl, rfl⟩ := hlists
      rw [PlainValue, plainItems_iff] at ha hb
      exact listOrdering_answers cal (fun x hx => itemOrdering_answers cal x (ha x hx)) ys hb
    · exact ⟨_, valueOrdering_scalar cal hlists⟩
  obtain ⟨o, ho⟩ := hsome
  rw [orderOf, ho]

/-! ## The comparison chains -/

/-- The place of a plain number, a boolean or a value of another kind among its like. -/
def numKey : Value ch → Int
  | .int i => (F64.ofInt i.toInt).rank
  | .float f => if f.isNan then 0 else f.rank
  | .bool b => b.toNat
  | _ => 0

theorem typeRank_json_array (xs : List Json) : typeRank (.json (.array xs) : Value ch) = 3 := rfl

/-- A list is of the kind of lists alone. -/
theorem list_of_typeRank {v : Value ch} (hv : PlainValue v) (h : typeRank v = 3) : ∃ xs, v = .json (.array xs) := by
  cases v with
  | json x =>
    cases x with
    | array xs => exact ⟨xs, rfl⟩
    | object m => cases h
    | null | bool | number | string => exact hv.elim
  | float f =>
    rw [typeRank_float] at h
    split at h <;> cases h
  | node | edge | path | int | str | bool | null | temporal | duration => cases h

/-- Strings are of a kind of their own among plain values. -/
theorem str_of_typeRank {v : Value ch} (hv : PlainValue v) (h : typeRank v = 5) : ∃ s, v = .str s := by
  cases v with
  | str s => exact ⟨s, rfl⟩
  | json x =>
    cases x with
    | array xs => cases h
    | object m => cases h
    | null | bool | number | string => exact hv.elim
  | float f =>
    rw [typeRank_float] at h
    split at h <;> cases h
  | temporal | duration => exact hv.elim
  | node | edge | path | int | bool | null => cases h

/-- Only booleans and numbers have a place other than the first. -/
theorem numKey_eq_zero {v : Value ch} (hbool : typeRank v ≠ 6) (hnum : typeRank v ≠ 7) : numKey v = 0 := by
  cases v with
  | int => exact absurd rfl hnum
  | bool => exact absurd rfl hbool
  | float f =>
    rw [typeRank_float] at hnum
    rw [numKey]
    split
    · rfl
    · next hf => exact absurd (if_neg hf) hnum
  | node | edge | path | str | null | json | temporal | duration => rfl

theorem compare_int64 (x y : Int64) : compare x y = compare x.toInt y.toInt := by
  change compareOfLessAndEq x y = _
  rcases lt_trichotomy x.toInt y.toInt with hlt | heq | hgt
  · rw [compare_lt_iff_lt.mpr hlt, compareOfLessAndEq, if_pos (Int64.lt_iff_toInt_lt.mpr hlt)]
  · have hlt : ¬x < y := fun hlt => by
      have := Int64.lt_iff_toInt_lt.mp hlt
      omega
    rw [compare_eq_iff_eq.mpr heq, compareOfLessAndEq, if_neg hlt, if_pos (Int64.toInt_inj.mp heq)]
  · have hlt : ¬x < y := fun hlt => by
      have := Int64.lt_iff_toInt_lt.mp hlt
      omega
    have hne : x ≠ y := fun heq => by
      rw [heq] at hgt
      omega
    rw [compare_gt_iff_gt.mpr hgt, compareOfLessAndEq, if_neg hlt, if_neg hne]

theorem compare_natCast (m n : Nat) : compare m n = compare (m : Int) (n : Int) := by
  rcases lt_trichotomy m n with hlt | heq | hgt
  · rw [compare_lt_iff_lt.mpr hlt, compare_lt_iff_lt.mpr (Int.ofNat_lt.mpr hlt)]
  · rw [heq, compare_eq_iff_eq.mpr rfl, compare_eq_iff_eq.mpr rfl]
  · rw [compare_gt_iff_gt.mpr hgt, compare_gt_iff_gt.mpr (Int.ofNat_lt.mpr hgt)]

/-- Within a kind other than strings, plain values are compared by their places. -/
theorem within_eq_compare {a b : Value ch} (ha : PlainValue a) (hb : PlainValue b) (hrank : typeRank a = typeRank b)
    (hstr : typeRank a ≠ 5) : within cal a b = compare (numKey a) (numKey b) := by
  have hself : ∀ k : Int, compare k k = .eq := fun k => compare_eq_iff_eq.mpr rfl
  cases a with
  | str => exact absurd rfl hstr
  | temporal | duration => exact ha.elim
  | json v =>
    have hne : typeRank b ≠ 6 ∧ typeRank b ≠ 7 := by
      rw [← hrank]
      cases v <;> simp [typeRank]
    rw [numKey_eq_zero hne.1 hne.2]
    cases b <;> exact (hself 0).symm
  | node | edge | path | null =>
    have hne : typeRank b ≠ 6 ∧ typeRank b ≠ 7 := by
      rw [← hrank]
      simp [typeRank]
    rw [numKey_eq_zero hne.1 hne.2]
    cases b <;> exact (hself 0).symm
  | bool x =>
    cases b with
    | bool y => exact compare_natCast x.toNat y.toNat
    | float f =>
      rw [typeRank_float] at hrank
      split at hrank <;> cases hrank
    | json v => cases v <;> cases hrank
    | node | edge | path | int | str | null | temporal | duration => cases hrank
  | int x =>
    cases b with
    | int y => exact (compare_int64 x y).trans (F64.compare_rank_ofInt ha hb).symm
    | float f =>
      have hnan : f.isNan = false := by
        rw [typeRank_float] at hrank
        cases hf : f.isNan with
        | false => rfl
        | true => rw [hf] at hrank; cases hrank
      simp only [within, numKey, hnan, Bool.false_eq_true, if_false]
    | json v => cases v <;> cases hrank
    | node | edge | path | bool | str | null | temporal | duration => cases hrank
  | float f =>
    rw [typeRank_float] at hrank
    cases hf : f.isNan with
    | true =>
      rw [hf, if_pos rfl] at hrank
      have hb0 : numKey b = 0 := numKey_eq_zero (by rw [← hrank]; decide) (by rw [← hrank]; decide)
      rw [hb0, numKey, hf, if_pos rfl, hself]
      cases b with
      | float g => simp only [within, hf, Bool.true_or, if_true]
      | int y => simp only [within, hf, if_true]
      | node | edge | path | str | bool | null | json | temporal | duration => rfl
    | false =>
      rw [hf, if_neg Bool.false_ne_true] at hrank
      cases b with
      | int y => simp only [within, numKey, hf, Bool.false_eq_true, if_false]
      | float g =>
        have hnan : g.isNan = false := by
          rw [typeRank_float] at hrank
          cases hg : g.isNan with
          | false => rfl
          | true => rw [hg] at hrank; cases hrank
        simp only [within, numKey, hf, hnan, Bool.or_self, Bool.false_eq_true, if_false]
      | json v => cases v <;> cases hrank
      | node | edge | path | bool | str | null | temporal | duration => cases hrank

theorem chains_within {a b c : Value ch} (ha : PlainValue a) (hb : PlainValue b) (hc : PlainValue c)
    (hab : typeRank a = typeRank b) (hbc : typeRank b = typeRank c) : Chains (within cal) a b c := by
  by_cases hstr : typeRank a = 5
  · obtain ⟨x, rfl⟩ := str_of_typeRank ha hstr
    obtain ⟨y, rfl⟩ := str_of_typeRank hb (hab ▸ hstr)
    obtain ⟨z, rfl⟩ := str_of_typeRank hc (hbc ▸ hab ▸ hstr)
    exact chains_key (fun s : String => s) x y z
  · unfold Chains
    rw [within_eq_compare cal ha hb hab hstr, within_eq_compare cal hb hc hbc (hab ▸ hstr),
      within_eq_compare cal ha hc (hab.trans hbc) hstr]
    exact chains_key numKey a b c

/-- The answer of the comparison of two items. -/
def itemOrderOf (x y : Json) : Ordering :=
  match itemOrdering cal x y with
  | .ok o => o
  | .error _ => .eq

theorem itemOrdering_answer {x y : Json} (hx : PlainItem ch x) (hy : PlainItem ch y) :
    itemOrdering cal x y = .ok (itemOrderOf cal x y) := by
  obtain ⟨o, ho⟩ := itemOrdering_answers cal x hx y hy
  rw [itemOrderOf, ho]

theorem listOrdering_answer {xs ys : List Json} (hxs : ∀ x ∈ xs, PlainItem ch x) (hys : ∀ y ∈ ys, PlainItem ch y) :
    listOrdering cal xs ys = .ok (listOrderOf cal xs ys) := by
  obtain ⟨o, ho⟩ := listOrdering_answers cal (fun x hx => itemOrdering_answers cal x (hxs x hx)) ys hys
  rw [listOrderOf, ho]

/-- Two lists are in the order of their first items, and then in that of the rest. -/
theorem listOrderOf_cons {x y : Json} {xs ys : List Json} (hx : PlainItem ch x) (hy : PlainItem ch y)
    (hxs : ∀ x ∈ xs, PlainItem ch x) (hys : ∀ y ∈ ys, PlainItem ch y) :
    listOrderOf cal (x :: xs) (y :: ys) = (itemOrderOf cal x y).then (listOrderOf cal xs ys) := by
  have hcons : listOrdering cal (x :: xs) (y :: ys) = .ok ((itemOrderOf cal x y).then (listOrderOf cal xs ys)) := by
    rw [listOrdering, itemOrdering_answer cal hx hy]
    cases itemOrderOf cal x y with
    | lt => rfl
    | gt => rfl
    | eq => exact listOrdering_answer cal hxs hys
  rw [listOrderOf, hcons]

/-- The comparison of lists chains if that of their items does. -/
theorem chains_lists {xs : List Json}
    (h : ∀ x ∈ xs, ∀ y z, PlainItem ch y → PlainItem ch z → Chains (itemOrderOf cal) x y z) (hxs : ∀ x ∈ xs, PlainItem ch x) :
    ∀ ys zs, (∀ y ∈ ys, PlainItem ch y) → (∀ z ∈ zs, PlainItem ch z) → Chains (listOrderOf cal) xs ys zs := by
  induction xs with
  | nil =>
    intro ys zs _ _ hxy hyz
    cases ys with
    | nil => cases zs <;> rfl
    | cons y ys =>
      cases zs with
      | nil => cases hyz
      | cons z zs => rfl
  | cons x xs ih =>
    intro ys zs hys hzs
    obtain ⟨hx, hxs⟩ := List.forall_mem_cons.mp hxs
    obtain ⟨hchain, hrest⟩ := List.forall_mem_cons.mp h
    cases ys with
    | nil => exact fun hxy _ => nomatch hxy
    | cons y ys =>
      obtain ⟨hy, hys⟩ := List.forall_mem_cons.mp hys
      cases zs with
      | nil => exact fun _ hyz => nomatch hyz
      | cons z zs =>
        obtain ⟨hz, hzs⟩ := List.forall_mem_cons.mp hzs
        unfold Chains
        rw [listOrderOf_cons cal hx hy hxs hys, listOrderOf_cons cal hy hz hys hzs, listOrderOf_cons cal hx hz hxs hzs]
        exact chain_then (hchain y z hy hz) fun _ _ => ih hrest hxs ys zs hys hzs

/-- Values are in the order of their kinds, and then two lists in that of lists, and others in that of their kind. -/
def inKind (a b : Value ch) : Ordering :=
  match a, b with
  | .json (.array xs), .json (.array ys) => listOrderOf cal xs ys
  | a, b => within cal a b

theorem orderOf_eq (a b : Value ch) (ha : PlainValue a) (hb : PlainValue b) :
    orderOf cal a b = (compare (typeRank a) (typeRank b)).then (inKind cal a b) := by
  by_cases hlists : ∃ xs ys, a = .json (.array xs) ∧ b = .json (.array ys)
  · obtain ⟨xs, ys, rfl, rfl⟩ := hlists
    rw [PlainValue, plainItems_iff] at ha hb
    rw [orderOf, valueOrdering, listOrdering_answer cal ha hb]
    rfl
  · rw [orderOf, valueOrdering_scalar cal hlists]
    dsimp only
    rw [scalarOrdering_eq, inKind]
    exact fun xs ys hxs hys => hlists ⟨xs, ys, hxs, hys⟩

/-- The comparison of plain values chains where that of the items of the first one does. -/
theorem chains_values {a b c : Value ch} (ha : PlainValue a) (hb : PlainValue b) (hc : PlainValue c)
    (hitems : ∀ xs, a = .json (.array xs) → ∀ x ∈ xs, ∀ y z, PlainItem ch y → PlainItem ch z → Chains (itemOrderOf cal) x y z) :
    Chains (orderOf cal) a b c := by
  unfold Chains
  rw [orderOf_eq cal a b ha hb, orderOf_eq cal b c hb hc, orderOf_eq cal a c ha hc]
  refine chains_lex typeRank fun hab hbc => ?_
  by_cases hlist : typeRank a = 3
  · obtain ⟨xs, rfl⟩ := list_of_typeRank ha hlist
    obtain ⟨ys, rfl⟩ := list_of_typeRank hb (hab ▸ hlist)
    obtain ⟨zs, rfl⟩ := list_of_typeRank hc (hbc ▸ hab ▸ hlist)
    rw [PlainValue, plainItems_iff] at ha hb hc
    exact chains_lists cal (hitems xs rfl) ha ys zs hb hc
  · have hother : ∀ {v w : Value ch}, typeRank v ≠ 3 → inKind cal v w = within cal v w := by
      intro v w hv
      rw [inKind]
      exact fun xs ys hxs _ => hv (hxs ▸ typeRank_json_array xs)
    unfold Chains
    rw [hother hlist, hother (hab ▸ hlist), hother hlist]
    exact chains_within cal ha hb hc hab hbc

theorem chains_items (x : Json) : PlainItem ch x → ∀ y z, PlainItem ch y → PlainItem ch z → Chains (itemOrderOf cal) x y z := by
  -- The items are compared as their values, and the items of a list are smaller than the list.
  have hvalues : ∀ {x y z : Json}, PlainItem ch x → PlainItem ch y → PlainItem ch z →
      (∀ xs, x = .array xs → (∀ u ∈ xs, PlainItem ch u) →
        ∀ u ∈ xs, ∀ y z, PlainItem ch y → PlainItem ch z → Chains (itemOrderOf cal) u y z) →
      Chains (itemOrderOf cal) x y z := by
    intro x y z hx hy hz hitems
    obtain ⟨v, hread, hv, hxv⟩ := value_of_plainItem hx
    obtain ⟨w, hread', hw, hyw⟩ := value_of_plainItem hy
    obtain ⟨u, hread'', hu, hzu⟩ := value_of_plainItem hz
    have horder : ∀ {x y : Json} {v w : Value ch}, readJson ch x = .ok v → readJson ch y = .ok w →
        (∀ xs, v = .json (.array xs) → x = .array xs ∧ isPathArray xs = false) →
        (∀ ys, w = .json (.array ys) → y = .array ys ∧ isPathArray ys = false) → itemOrderOf cal x y = orderOf cal v w := by
      intro x y v w hx hy hxv hyw
      rw [itemOrderOf, orderOf, itemOrdering_eq cal hx hy hxv hyw]
    unfold Chains
    rw [horder hread hread' hxv hyw, horder hread' hread'' hyw hzu, horder hread hread'' hxv hzu]
    refine chains_values cal hv hw hu fun xs hxs => ?_
    subst hxs
    exact hitems xs (hxv xs rfl).1 (plainItems_iff.mp hv)
  induction x using Json.tree_induction with
  | null | bool | number | string | object => exact fun hx y z hy hz => hvalues hx hy hz nofun
  | array xs ih =>
    intro hx y z hy hz
    refine hvalues hx hy hz fun ys hys hplain u hu => ?_
    cases hys
    exact ih u hu (hplain u hu)

/-- Among plain values `value_ordering` is an order. -/
theorem plainValue_orders : OrdersOn (valueOrdering cal) (orderOf cal) (PlainValue : Value ch → Prop) where
  answers a b ha hb := valueOrdering_answers cal ha hb
  swap a b ha hb := by
    have hswap := valueOrdering_swap cal a b
    rw [valueOrdering_answers cal ha hb, valueOrdering_answers cal hb ha] at hswap
    exact Except.ok.inj hswap
  trans a b c ha hb hc hab hbc := by
    rw [chains_values cal ha hb hc (fun xs hxs => ?_) hab hbc]
    · exact isLE_then hab hbc
    · subst hxs
      exact fun x hx => chains_items cal x (plainItems_iff.mp ha x hx)

end PlainOrderAux

open PlainOrderAux

/-- Among plain values `value_ordering` answers, and it is an order: of two values turned round its answer is turned, and where
it does not go down from a first value to a second one and from there to a third one, it says of the first and the third what it
says of the first two that are not level. -/
theorem plain_values_ordered {ch : Chrono} (cal : Calendar ch) {a b c : Value ch} (ha : PlainValue a) (hb : PlainValue b)
    (hc : PlainValue c) :
    ∃ ab bc ac, Comparison.valueOrdering cal a b = .ok ab ∧ Comparison.valueOrdering cal b c = .ok bc ∧
      Comparison.valueOrdering cal a c = .ok ac ∧ Comparison.valueOrdering cal b a = .ok ab.swap ∧
      (ab.isLE → bc.isLE → ac = ab.then bc) := by
  have h := plainValue_orders cal
  refine ⟨_, _, _, h.answers a b ha hb, h.answers b c hb hc, h.answers a c ha hc, ?_, h.chains ha hb hc⟩
  rw [h.answers b a hb ha, h.swap a b ha hb]

/-- An integer, a float and a list. -/
theorem plain_values_ordered_of_kinds :
    ∃ ab bc ac, Comparison.valueOrdering (ProjectionParts.bare .debug).calendar (.json (.array [.bool true, .null]))
      (.int 1) = .ok ab ∧
      Comparison.valueOrdering (ProjectionParts.bare .debug).calendar (.int 1) (.float F64.infinity) = .ok bc ∧
      Comparison.valueOrdering (ProjectionParts.bare .debug).calendar (.json (.array [.bool true, .null])) (.float F64.infinity) =
        .ok ac ∧ (ab.isLE → bc.isLE → ac = ab.then bc) := by
  have hlist : PlainValue (.json (.array [.bool true, .null]) : Value Engine.bare.ch) :=
    ⟨⟨.bool true, rfl, trivial⟩, ⟨.null, rfl, trivial⟩, trivial⟩
  have hint : PlainValue (.int 1 : Value Engine.bare.ch) := by
    change (1 : Int64).toInt.natAbs < 2 ^ 53
    decide
  have hfloat : PlainValue (.float F64.infinity : Value Engine.bare.ch) := trivial
  obtain ⟨ab, bc, ac, hab, hbc, hac, -, hchain⟩ :=
    plain_values_ordered (ProjectionParts.bare .debug).calendar hlist hint hfloat
  exact ⟨ab, bc, ac, hab, hbc, hac, hchain⟩

end PgEddy
