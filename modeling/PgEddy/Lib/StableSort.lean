import Mathlib.Data.List.Sort
import PgEddy.Lib.Chained

/-!
# Stable sorting with a comparison that may fail

A stable sort is the only list of the same elements that goes up and keeps the elements that are level in their order. Where the
comparison answers, and its answers are an order, insertion finds it.
-/

namespace StableSort

open Chained

variable {α ε : Type}

/-! ## Insertion -/

/-- An insertion in front of what is not smaller. -/
def insertSorted (cmp : α → α → Except ε Ordering) (a : α) : List α → Except ε (List α)
  | [] => .ok [a]
  | b :: bs => do
    match ← cmp a b with
    | .gt => return b :: (← insertSorted cmp a bs)
    | _ => return a :: b :: bs

/-- `sort_by`. -/
def sortBy (cmp : α → α → Except ε Ordering) : List α → Except ε (List α)
  | [] => .ok []
  | a :: as => do insertSorted cmp a (← sortBy cmp as)

theorem insertSorted_perm {cmp : α → α → Except ε Ordering} {a : α} {bs : List α} :
    ∀ {sorted : List α}, insertSorted cmp a bs = .ok sorted → sorted.Perm (a :: bs) := by
  induction bs with
  | nil =>
    intro sorted h
    rw [← Except.ok.inj h]
  | cons b bs ih =>
    intro sorted h
    rw [insertSorted] at h
    cases hcmp : cmp a b with
    | error e => rw [hcmp] at h; cases h
    | ok o =>
      rw [hcmp] at h
      cases o with
      | lt => rw [← Except.ok.inj h]
      | eq => rw [← Except.ok.inj h]
      | gt =>
        cases hrest : insertSorted cmp a bs with
        | error e => simp only [bind, Except.bind, hrest] at h; cases h
        | ok rest =>
          simp only [bind, Except.bind, hrest] at h
          rw [← Except.ok.inj h]
          exact ((ih hrest).cons b).trans (List.Perm.swap a b bs)

/-- A sort that succeeds keeps the elements. -/
theorem sortBy_perm {cmp : α → α → Except ε Ordering} {as : List α} :
    ∀ {sorted : List α}, sortBy cmp as = .ok sorted → sorted.Perm as := by
  induction as with
  | nil =>
    intro sorted h
    rw [← Except.ok.inj h]
  | cons a as ih =>
    intro sorted h
    rw [sortBy] at h
    cases hrest : sortBy cmp as with
    | error e => rw [hrest] at h; cases h
    | ok rest =>
      rw [hrest] at h
      exact (insertSorted_perm h).trans ((ih hrest).cons a)

/-! ## Orders -/

/-- Among the elements of a set the comparison answers, and its answers are an order. -/
structure OrdersOn (cmp : α → α → Except ε Ordering) (c : α → α → Ordering) (S : α → Prop) : Prop where
  answers : ∀ a b, S a → S b → cmp a b = .ok (c a b)
  swap : ∀ a b, S a → S b → c b a = (c a b).swap
  trans : ∀ a b d, S a → S b → S d → (c a b).isLE → (c b d).isLE → (c a d).isLE

/-- A stable sort of a list. -/
structure StablySorted (c : α → α → Ordering) (as sorted : List α) : Prop where
  perm : sorted.Perm as
  ascending : sorted.Pairwise fun a b => (c a b).isLE
  stable : ∀ a ∈ as, (sorted.filter fun b => c a b = .eq) = as.filter fun b => c a b = .eq

variable {cmp : α → α → Except ε Ordering} {c : α → α → Ordering} {S : α → Prop}

theorem OrdersOn.mono {T : α → Prop} (h : OrdersOn cmp c S) (hsub : ∀ a, T a → S a) : OrdersOn cmp c T where
  answers a b ha hb := h.answers a b (hsub a ha) (hsub b hb)
  swap a b ha hb := h.swap a b (hsub a ha) (hsub b hb)
  trans a b d ha hb hd := h.trans a b d (hsub a ha) (hsub b hb) (hsub d hd)

theorem OrdersOn.refl (h : OrdersOn cmp c S) {a : α} (ha : S a) : c a a = .eq := by
  have hswap := h.swap a a ha ha
  cases hc : c a a <;> rw [hc] at hswap <;> first | rfl | cases hswap

/-- Two steps that do not go down compare the ends as the first step that is not level. -/
theorem OrdersOn.chains (h : OrdersOn cmp c S) {a b d : α} (ha : S a) (hb : S b) (hd : S d) : Chains c a b d := by
  have htrans : TransOn S c := h.trans
  exact htrans.chains h.swap ha hb hd

theorem isLE_iff_ne_gt {o : Ordering} : o.isLE ↔ o ≠ .gt := by cases o <;> simp

/-- What is not below the one is above the other. -/
theorem OrdersOn.isLE_of_gt (h : OrdersOn cmp c S) {a b : α} (ha : S a) (hb : S b) (hgt : c a b = .gt) : (c b a).isLE := by
  rw [h.swap a b ha hb, hgt]
  rfl

/-- Elements level with one element are level with each other. -/
theorem OrdersOn.eq_trans (h : OrdersOn cmp c S) {a b d : α} (ha : S a) (hb : S b) (hd : S d) (hab : c a b = .eq)
    (had : c a d = .eq) : c b d = .eq := by
  have hba : c b a = .eq := by rw [h.swap a b ha hb, hab]; rfl
  have hda : c d a = .eq := by rw [h.swap a d ha hd, had]; rfl
  have hbd := h.trans b a d hb ha hd (by rw [hba]; rfl) (by rw [had]; rfl)
  have hdb := h.trans d a b hd ha hb (by rw [hda]; rfl) (by rw [hab]; rfl)
  rw [h.swap b d hb hd] at hdb
  cases hc : c b d with
  | eq => rfl
  | lt => rw [hc] at hdb; cases hdb
  | gt => rw [hc] at hbd; cases hbd

/-- An order turned round. -/
theorem OrdersOn.turned (h : OrdersOn cmp c S) :
    OrdersOn (fun a b => do return (← cmp a b).swap) (fun a b => (c a b).swap) S where
  answers a b ha hb := by
    rw [h.answers a b ha hb]
    rfl
  swap a b ha hb := by rw [h.swap a b ha hb]
  trans a b d ha hb hd hab hbd := by
    rw [← h.swap a b ha hb] at hab
    rw [← h.swap b d hb hd] at hbd
    rw [← h.swap a d ha hd]
    exact h.trans d b a hd hb ha hbd hab

/-- An order, and another one for what is level in it. -/
theorem OrdersOn.lex {cmp' : α → α → Except ε Ordering} {c' : α → α → Ordering} (h : OrdersOn cmp c S)
    (h' : OrdersOn cmp' c' S) :
    OrdersOn (fun a b => do let o ← cmp a b; if o = .eq then cmp' a b else return o) (fun a b => (c a b).then (c' a b)) S where
  answers a b ha hb := by
    rw [h.answers a b ha hb, h'.answers a b ha hb]
    cases c a b <;> rfl
  swap a b ha hb := by rw [h.swap a b ha hb, h'.swap a b ha hb, Ordering.swap_then]
  trans a b d ha hb hd hab hbd := by
    rw [chain_then (h.chains ha hb hd) (fun _ _ => h'.chains ha hb hd) hab hbd]
    exact isLE_then hab hbd

/-- An order of the keys of elements. -/
theorem OrdersOn.keyed {β : Type} {T : β → Prop} {cmp : β → β → Except ε Ordering} {c : β → β → Ordering} (h : OrdersOn cmp c T)
    {key : α → β} (hkey : ∀ a, S a → T (key a)) : OrdersOn (fun a b => cmp (key a) (key b)) (fun a b => c (key a) (key b)) S where
  answers a b ha hb := h.answers _ _ (hkey a ha) (hkey b hb)
  swap a b ha hb := h.swap _ _ (hkey a ha) (hkey b hb)
  trans a b d ha hb hd := h.trans _ _ _ (hkey a ha) (hkey b hb) (hkey d hd)

theorem OrdersOn.congr {cmp' : α → α → Except ε Ordering} {c' : α → α → Ordering} (h : OrdersOn cmp c S)
    (hcmp : ∀ a b, S a → S b → cmp' a b = cmp a b) (hc : ∀ a b, S a → S b → c' a b = c a b) : OrdersOn cmp' c' S where
  answers a b ha hb := by rw [hcmp a b ha hb, hc a b ha hb, h.answers a b ha hb]
  swap a b ha hb := by rw [hc b a hb ha, hc a b ha hb, h.swap a b ha hb]
  trans a b d ha hb hd := by
    rw [hc a b ha hb, hc b d hb hd, hc a d ha hd]
    exact h.trans a b d ha hb hd

/-! ## What insertion finds -/

theorem insertSorted_spec (h : OrdersOn cmp c S) {a : α} (ha : S a) {bs : List α} (hbs : ∀ b ∈ bs, S b)
    (hasc : bs.Pairwise fun a b => (c a b).isLE) :
    ∃ sorted, insertSorted cmp a bs = .ok sorted ∧ sorted.Perm (a :: bs) ∧ (sorted.Pairwise fun a b => (c a b).isLE) ∧
      ∀ x, S x → (sorted.filter fun b => c x b = .eq) = (a :: bs).filter fun b => c x b = .eq := by
  induction bs with
  | nil => exact ⟨[a], rfl, List.Perm.refl _, List.pairwise_singleton _ _, fun _ _ => rfl⟩
  | cons b bs ih =>
    have hb := hbs b List.mem_cons_self
    have htail : ∀ d ∈ bs, S d := fun d hd => hbs d (List.mem_cons_of_mem _ hd)
    obtain ⟨hbasc, htasc⟩ := List.pairwise_cons.mp hasc
    rw [insertSorted, h.answers a b ha hb]
    by_cases hgt : c a b = .gt
    · obtain ⟨sorted, hrun, hperm, hsorted, hstable⟩ := ih htail htasc
      refine ⟨b :: sorted, ?_, (hperm.cons b).trans (List.Perm.swap a b bs), ?_, ?_⟩
      · simp only [bind, Except.bind, hgt, hrun]
        rfl
      · rw [List.pairwise_cons]
        refine ⟨fun d hd => ?_, hsorted⟩
        obtain rfl | hd := List.mem_cons.mp (hperm.subset hd)
        · exact h.isLE_of_gt ha hb hgt
        · exact hbasc d hd
      · intro x hx
        -- The element is level with at most one of the two.
        have hnot : ¬(c x a = .eq ∧ c x b = .eq) := fun hboth => by
          rw [h.eq_trans hx ha hb hboth.1 hboth.2] at hgt
          cases hgt
        rw [List.filter_cons, hstable x hx, List.filter_cons, List.filter_cons, List.filter_cons]
        by_cases hxb : c x b = .eq
        · have hxa : ¬c x a = .eq := fun hxa => hnot ⟨hxa, hxb⟩
          simp [hxa, hxb]
        · simp [hxb]
    · refine ⟨a :: b :: bs, ?_, List.Perm.refl _, ?_, fun _ _ => rfl⟩
      · cases hc : c a b with
        | gt => exact absurd hc hgt
        | lt => rfl
        | eq => rfl
      · have hab : (c a b).isLE := isLE_iff_ne_gt.mpr hgt
        rw [List.pairwise_cons]
        refine ⟨fun d hd => ?_, hasc⟩
        obtain rfl | hd := List.mem_cons.mp hd
        · exact hab
        · exact h.trans a b d ha hb (htail d hd) hab (hbasc d hd)

/-- Where the comparison orders the elements of a list, the sort succeeds and is stable. -/
theorem sortBy_spec (h : OrdersOn cmp c S) {as : List α} (has : ∀ a ∈ as, S a) :
    ∃ sorted, sortBy cmp as = .ok sorted ∧ StablySorted c as sorted := by
  induction as with
  | nil => exact ⟨[], rfl, List.Perm.refl _, List.Pairwise.nil, fun _ _ => rfl⟩
  | cons a as ih =>
    have ha := has a List.mem_cons_self
    have htail : ∀ b ∈ as, S b := fun b hb => has b (List.mem_cons_of_mem _ hb)
    obtain ⟨rest, hrest, hsorted⟩ := ih htail
    have hS : ∀ b ∈ rest, S b := fun b hb => htail b (hsorted.perm.subset hb)
    obtain ⟨sorted, hrun, hperm, hasc, hstable⟩ := insertSorted_spec h ha hS hsorted.ascending
    refine ⟨sorted, ?_, hperm.trans (hsorted.perm.cons a), hasc, fun x hx => ?_⟩
    · rw [sortBy, hrest]
      exact hrun
    · have hxS : S x := has x hx
      rw [hstable x hxS, List.filter_cons, List.filter_cons]
      have hrestfilter : (rest.filter fun b => c x b = .eq) = as.filter fun b => c x b = .eq := by
        by_cases hex : ∃ y ∈ as, c x y = .eq
        · -- The elements level with one element are those level with another one level with it.
          obtain ⟨y, hy, hxy⟩ := hex
          have hsame : ∀ b, S b → (c x b = .eq ↔ c y b = .eq) := fun b hb =>
            ⟨fun hxb => h.eq_trans hxS (htail y hy) hb hxy hxb,
              fun hyb => h.eq_trans (htail y hy) hxS hb (by rw [h.swap x y hxS (htail y hy), hxy]; rfl) hyb⟩
          rw [List.filter_congr fun b hb => decide_eq_decide.mpr (hsame b (hS b hb)),
            List.filter_congr fun b hb => decide_eq_decide.mpr (hsame b (htail b hb))]
          exact hsorted.stable y hy
        · rw [List.filter_eq_nil_iff.mpr, List.filter_eq_nil_iff.mpr]
          · exact fun b hb hxb => hex ⟨b, hb, by simpa using hxb⟩
          · exact fun b hb hxb => hex ⟨b, hsorted.perm.subset hb, by simpa using hxb⟩
      rw [hrestfilter]

/-! ## There is one stable sort -/

/-- Two stable sorts of a list are equal. -/
theorem StablySorted.unique (h : OrdersOn cmp c S) {as l l' : List α} (has : ∀ a ∈ as, S a) (hl : StablySorted c as l)
    (hl' : StablySorted c as l') : l = l' := by
  induction l generalizing l' as with
  | nil => exact (List.perm_nil.mp (hl'.perm.trans hl.perm.symm)).symm
  | cons a l ih =>
    cases l' with
    | nil => exact absurd (hl.perm.trans hl'.perm.symm) (by simp)
    | cons b l' =>
      have haS : S a := has a (hl.perm.subset List.mem_cons_self)
      have hbS : S b := has b (hl'.perm.subset List.mem_cons_self)
      have hmem : a ∈ as := hl.perm.subset List.mem_cons_self
      -- Each head is not above the other one, so the heads are level.
      have hfirst : ∀ {x y : α} {xs ys : List α}, StablySorted c as (x :: xs) → StablySorted c as (y :: ys) → S x →
          (c x y).isLE := by
        intro x y xs ys hx hy hxS
        have hyx : y ∈ x :: xs := hx.perm.symm.subset (hy.perm.subset List.mem_cons_self)
        obtain rfl | hyx := List.mem_cons.mp hyx
        · rw [h.refl hxS]; rfl
        · exact (List.pairwise_cons.mp hx.ascending).1 y hyx
      have hab := hfirst hl hl' haS
      have hba := hfirst hl' hl hbS
      have hlevel : c a b = .eq := by
        rw [h.swap a b haS hbS] at hba
        cases hc : c a b with
        | eq => rfl
        | lt => rw [hc] at hba; cases hba
        | gt => rw [hc] at hab; cases hab
      have heq : a = b := by
        have hfilter := (hl.stable a hmem).trans (hl'.stable a hmem).symm
        rw [List.filter_cons_of_pos (by simpa using h.refl haS), List.filter_cons_of_pos (by simpa using hlevel)] at hfilter
        exact (List.cons.inj hfilter).1
      subst heq
      -- The tails are stable sorts of one of them.
      refine congrArg _ (@ih l l' (fun x hx => has x (hl.perm.subset (List.mem_cons_of_mem _ hx))) ?_ ?_)
      · exact ⟨List.Perm.refl _, (List.pairwise_cons.mp hl.ascending).2, fun _ _ => rfl⟩
      · refine ⟨(hl'.perm.trans hl.perm.symm).cons_inv, (List.pairwise_cons.mp hl'.ascending).2, fun x hx => ?_⟩
        have hfilter := (hl.stable x (hl.perm.subset (List.mem_cons_of_mem _ hx))).trans
          (hl'.stable x (hl.perm.subset (List.mem_cons_of_mem _ hx))).symm
        rw [List.filter_cons, List.filter_cons] at hfilter
        by_cases hxa : c x a = .eq
        · simpa [hxa] using hfilter.symm
        · simpa [hxa] using hfilter.symm

/-! ## The least element -/

/-- The element that a pass from left to right keeps when it takes a new one only if that is smaller. -/
def firstLeast (c : α → α → Ordering) (a : α) (as : List α) : α :=
  as.foldl (fun least b => if c b least = .lt then b else least) a

theorem firstLeast_cons (a b : α) (as : List α) :
    firstLeast c a (b :: as) = firstLeast c (if c b a = .lt then b else a) as := rfl

/-- It is an element, nothing is smaller, and it is the first of those level with it. -/
theorem firstLeast_spec (h : OrdersOn cmp c S) (as : List α) : ∀ {a : α}, (∀ b ∈ a :: as, S b) →
    S (firstLeast c a as) ∧ (∀ b ∈ a :: as, (c (firstLeast c a as) b).isLE) ∧
      ((a :: as).filter fun b => c (firstLeast c a as) b = .eq).head? = some (firstLeast c a as) := by
  induction as with
  | nil =>
    intro a has
    have ha := has a List.mem_cons_self
    have hself := h.refl ha
    refine ⟨ha, fun b hb => ?_, ?_⟩
    · rw [List.mem_singleton.mp hb]
      exact isLE_iff_ne_gt.mpr (by simp [firstLeast, hself])
    · simp [firstLeast, hself]
  | cons b as ih =>
    intro a has
    have ha := has a List.mem_cons_self
    have hb := has b (List.mem_cons_of_mem _ List.mem_cons_self)
    have hrest : ∀ d ∈ as, S d := fun d hd => has d (List.mem_cons_of_mem _ (List.mem_cons_of_mem _ hd))
    rw [firstLeast_cons]
    by_cases hlt : c b a = .lt
    · -- The new element is kept, and the old one is above it.
      rw [if_pos hlt]
      obtain ⟨hm, hleast, hfirst⟩ := ih (a := b) fun d hd => has d (List.mem_cons_of_mem _ hd)
      generalize firstLeast c b as = m at hm hleast hfirst ⊢
      have hmb := hleast b List.mem_cons_self
      have hma : (c m a).isLE := h.trans m b a hm hb ha hmb (by rw [hlt]; rfl)
      have hne : ¬c m a = .eq := by
        intro heq
        have hab : (c a b).isLE := h.trans a m b ha hm hb (by rw [h.swap m a hm ha, heq]; rfl) hmb
        rw [h.swap b a hb ha, hlt] at hab
        cases hab
      refine ⟨hm, fun d hd => ?_, ?_⟩
      · obtain rfl | hd := List.mem_cons.mp hd
        · exact hma
        · exact hleast d hd
      · rw [List.filter_cons_of_neg (by simpa using hne)]
        exact hfirst
    · rw [if_neg hlt]
      obtain ⟨hm, hleast, hfirst⟩ := ih (a := a) fun d hd =>
        (List.mem_cons.mp hd).elim (fun heq => heq ▸ ha) (hrest d)
      generalize firstLeast c a as = m at hm hleast hfirst ⊢
      have hma := hleast a List.mem_cons_self
      have hab : (c a b).isLE := by
        rw [h.swap b a hb ha]
        cases hc : c b a with
        | lt => exact absurd hc hlt
        | eq => rfl
        | gt => rfl
      have hmb : (c m b).isLE := h.trans m a b hm ha hb hma hab
      refine ⟨hm, fun d hd => ?_, ?_⟩
      · obtain rfl | hd := List.mem_cons.mp hd
        · exact hma
        · obtain rfl | hd := List.mem_cons.mp hd
          · exact hmb
          · exact hleast d (List.mem_cons_of_mem _ hd)
      · by_cases hmaeq : c m a = .eq
        · rw [List.filter_cons_of_pos (by simpa using hmaeq)] at hfirst ⊢
          exact hfirst
        · -- An element level with the least one and behind `a` would have been smaller than `a`.
          have hmbne : ¬c m b = .eq := by
            intro heq
            have hbm : c b m = .eq := by rw [h.swap m b hm hb, heq]; rfl
            have hba := h.trans b m a hb hm ha (by rw [hbm]; rfl) hma
            cases hc : c b a with
            | lt => exact hlt hc
            | gt => rw [hc] at hba; cases hba
            | eq => exact hmaeq (h.eq_trans hb hm ha hbm hc)
          rw [List.filter_cons_of_neg (by simpa using hmaeq)] at hfirst ⊢
          rw [List.filter_cons_of_neg (by simpa using hmbne)]
          exact hfirst

/-- The first of the least elements is the head of the stable sort. -/
theorem head_of_stablySorted (h : OrdersOn cmp c S) {a : α} {as sorted : List α} (has : ∀ b ∈ a :: as, S b)
    (hsorted : StablySorted c (a :: as) sorted) : sorted.head? = some (firstLeast c a as) := by
  obtain ⟨hm, hleast, hfirst⟩ := firstLeast_spec h as has
  generalize firstLeast c a as = m at hm hleast hfirst ⊢
  have hmem : m ∈ a :: as := List.mem_of_mem_filter (List.mem_of_mem_head? hfirst)
  cases sorted with
  | nil => exact absurd hsorted.perm.symm (by simp)
  | cons x xs =>
    have hx : x ∈ a :: as := hsorted.perm.subset List.mem_cons_self
    have hxm : (c x m).isLE := by
      obtain heq | hmem' := List.mem_cons.mp (hsorted.perm.symm.subset hmem)
      · rw [heq, h.refl (has x hx)]
        rfl
      · exact (List.pairwise_cons.mp hsorted.ascending).1 m hmem'
    have hlevel : c m x = .eq := by
      have hmx := hleast x hx
      rw [h.swap m x hm (has x hx)] at hxm
      cases hc : c m x with
      | eq => rfl
      | lt => rw [hc] at hxm; cases hxm
      | gt => rw [hc] at hmx; cases hmx
    have hfilter := hsorted.stable m hmem
    rw [List.filter_cons_of_pos (by simpa using hlevel)] at hfilter
    rw [← hfilter] at hfirst
    exact hfirst

end StableSort
