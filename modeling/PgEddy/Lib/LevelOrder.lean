import Mathlib.Data.List.Nodup

/-!
# Searching level by level

A search starts from some values and goes on with what comes next after each of them. Taken from a queue, the values of one
level come before those of the level after it. Where a value is a sequence and what comes next extends it, the search gives out
every sequence once.
-/

namespace Search

variable {α β ε : Type}

/-- The values in the order of their levels, up to a number of steps from the first ones. -/
def levelOrder (next : α → List α) : Nat → List α → List α
  | 0, xs => xs
  | steps + 1, xs => xs ++ levelOrder next steps (xs.flatMap next)

/-- The search with a queue, for a number of rounds. It is none if the queue is not empty then. -/
def queueRun (next : α → List α) : Nat → List α → Option (List α)
  | _, [] => some []
  | 0, _ :: _ => none
  | rounds + 1, x :: queue => (queueRun next rounds (queue ++ next x)).map (x :: ·)

/-! ## The queue -/

/-- The front of the queue is given out before what comes next after it. -/
theorem queueRun_append (next : α → List α) (xs queue : List α) (rounds : Nat) :
    queueRun next (xs.length + rounds) (xs ++ queue) =
      (queueRun next rounds (queue ++ xs.flatMap next)).map (xs ++ ·) := by
  induction xs generalizing queue with
  | nil => simp
  | cons x xs ih =>
    have hrounds : (x :: xs).length + rounds = xs.length + rounds + 1 := by
      rw [List.length_cons]
      omega
    rw [hrounds, List.cons_append, queueRun, List.append_assoc, ih, Option.map_map, List.flatMap_cons, List.append_assoc]
    rfl

/-- A search that stops at a level gives the queue out level by level, in as many rounds as it gives out values. -/
theorem queueRun_eq_levelOrder {next stopped : α → List α} {r : α → Nat} {last : Nat}
    (hrank : ∀ x, ∀ y ∈ next x, r y = r x + 1)
    (hstopped : ∀ x, stopped x = if r x < last then next x else []) (steps : Nat) {xs : List α}
    (hxs : ∀ x ∈ xs, r x + steps = last) {rounds : Nat} (hrounds : (levelOrder next steps xs).length ≤ rounds) :
    queueRun stopped rounds xs = some (levelOrder next steps xs) := by
  induction steps generalizing xs rounds with
  | zero =>
    have hnone : xs.flatMap stopped = [] := by
      refine List.flatMap_eq_nil_iff.mpr fun x hx => ?_
      have := hxs x hx
      rw [hstopped, if_neg (by omega)]
    obtain ⟨more, rfl⟩ := Nat.exists_eq_add_of_le hrounds
    have h := queueRun_append stopped xs [] more
    rw [List.append_nil, List.nil_append, hnone] at h
    unfold levelOrder
    rw [h]
    cases more <;> simp [queueRun]
  | succ steps ih =>
    have hnext : xs.flatMap stopped = xs.flatMap next := by
      refine List.flatMap_congr fun x hx => ?_
      have := hxs x hx
      rw [hstopped, if_pos (by omega)]
    unfold levelOrder at hrounds ⊢
    rw [List.length_append] at hrounds
    obtain ⟨more, rfl⟩ := Nat.exists_eq_add_of_le (Nat.le_of_add_right_le hrounds)
    have h := queueRun_append stopped xs [] more
    rw [List.append_nil, List.nil_append, hnext] at h
    rw [h, ih]
    · rfl
    · intro y hy
      obtain ⟨x, hx, hy⟩ := List.mem_flatMap.mp hy
      have := hxs x hx
      rw [hrank x y hy]
      omega
    · omega

/-! ## One search by another -/

/-- A search of values that stand for others gives out what the search of the others does. -/
theorem levelOrder_map {f : β → α} {next : α → List α} {next' : β → List β} (h : ∀ x, next (f x) = (next' x).map f)
    (steps : Nat) (xs : List β) : levelOrder next steps (xs.map f) = (levelOrder next' steps xs).map f := by
  induction steps generalizing xs with
  | zero => rfl
  | succ steps ih =>
    unfold levelOrder
    rw [List.map_append, ← ih, List.flatMap_map, List.map_flatMap]
    congr 2
    exact List.flatMap_congr fun x _ => h x

/-! ## Sequences -/

/-- A sequence that grows at its end. -/
def extend (more : List ε → List ε) (es : List ε) : List (List ε) := (more es).map fun e => es ++ [e]

/-- Every element of the sequence is one by which the elements before it can go on. -/
def Grows (more : List ε → List ε) (es : List ε) : Prop := ∀ before e after, es = before ++ e :: after → e ∈ more before

theorem grows_nil (more : List ε → List ε) : Grows more [] := by
  intro before e after h
  simp at h

theorem grows_snoc {more : List ε → List ε} {es : List ε} {e : ε} : Grows more (es ++ [e]) ↔ Grows more es ∧ e ∈ more es := by
  constructor
  · intro h
    refine ⟨fun before e' after hes => h before e' (after ++ [e]) (by rw [hes]; simp), h es e [] rfl⟩
  · rintro ⟨h, he⟩ before e' after hes
    rcases List.eq_nil_or_concat after with rfl | ⟨after, e'', rfl⟩
    · obtain ⟨rfl, hee⟩ := List.append_inj' hes rfl
      cases hee
      exact he
    · refine h before e' after ?_
      have : es ++ [e] = (before ++ e' :: after) ++ [e''] := by rw [hes]; simp
      exact (List.append_inj' this rfl).1

theorem mem_extend {more : List ε → List ε} {xs : List (List ε)} {es : List ε} :
    es ∈ xs.flatMap (extend more) ↔ ∃ before e, es = before ++ [e] ∧ before ∈ xs ∧ e ∈ more before := by
  rw [List.mem_flatMap]
  constructor
  · rintro ⟨before, hb, hes⟩
    obtain ⟨e, he, rfl⟩ := List.mem_map.mp hes
    exact ⟨before, e, rfl, hb, he⟩
  · rintro ⟨before, e, rfl, hb, he⟩
    exact ⟨before, hb, List.mem_map.mpr ⟨e, he, rfl⟩⟩

/-- The search finds the sequences that can grow, up to a length. -/
theorem mem_levelOrder_extend {more : List ε → List ε} {steps : Nat} {n : Nat} {xs : List (List ε)}
    (hxs : ∀ es, es ∈ xs ↔ es.length = n ∧ Grows more es) {es : List ε} :
    es ∈ levelOrder (extend more) steps xs ↔ n ≤ es.length ∧ es.length ≤ n + steps ∧ Grows more es := by
  induction steps generalizing n xs with
  | zero =>
    unfold levelOrder
    rw [hxs, Nat.add_zero, ← and_assoc, ← Nat.le_antisymm_iff, eq_comm]
  | succ steps ih =>
    have hnext : ∀ es, es ∈ xs.flatMap (extend more) ↔ es.length = n + 1 ∧ Grows more es := by
      intro es
      rw [mem_extend]
      constructor
      · rintro ⟨before, e, rfl, hb, he⟩
        have := (hxs before).mp hb
        exact ⟨by rw [List.length_append, this.1]; rfl, grows_snoc.mpr ⟨this.2, he⟩⟩
      · rintro ⟨hlen, hg⟩
        rcases List.eq_nil_or_concat es with rfl | ⟨before, e, rfl⟩
        · cases hlen
        · rw [List.concat_eq_append] at hlen hg ⊢
          rw [List.length_append] at hlen
          have := grows_snoc.mp hg
          exact ⟨before, e, rfl, (hxs before).mpr ⟨Nat.succ.inj hlen, this.1⟩, this.2⟩
    unfold levelOrder
    rw [List.mem_append, hxs, ih hnext]
    constructor
    · rintro (⟨hn, hg⟩ | ⟨hle, hge, hg⟩)
      · exact ⟨by omega, by omega, hg⟩
      · exact ⟨by omega, by omega, hg⟩
    · rintro ⟨hle, hge, hg⟩
      by_cases hn : es.length = n
      · exact .inl ⟨hn, hg⟩
      · exact .inr ⟨by omega, by omega, hg⟩

/-- The search gives out no sequence twice. -/
theorem nodup_levelOrder_extend {more : List ε → List ε} (hmore : ∀ es, (more es).Nodup) {steps n : Nat}
    {xs : List (List ε)} (hn : ∀ es ∈ xs, es.length = n) (hxs : xs.Nodup) :
    (levelOrder (extend more) steps xs).Nodup ∧ ∀ es ∈ levelOrder (extend more) steps xs, n ≤ es.length := by
  induction steps generalizing n xs with
  | zero => exact ⟨hxs, fun es hes => Nat.le_of_eq (hn es hes).symm⟩
  | succ steps ih =>
    have hlen : ∀ es ∈ xs.flatMap (extend more), es.length = n + 1 := by
      intro es hes
      obtain ⟨before, e, rfl, hb, -⟩ := mem_extend.mp hes
      rw [List.length_append, hn before hb]
      rfl
    have hnodup : (xs.flatMap (extend more)).Nodup := by
      refine List.nodup_flatMap.mpr ⟨fun es _ => (hmore es).map fun a b hab => ?_, hxs.imp fun {es es'} hne => ?_⟩
      · exact List.singleton_injective (List.append_cancel_left hab)
      · intro l hl hl'
        obtain ⟨e, -, rfl⟩ := List.mem_map.mp hl
        obtain ⟨e', -, heq⟩ := List.mem_map.mp hl'
        exact hne (List.append_inj' heq rfl).1.symm
    obtain ⟨hnext, hge⟩ := ih hlen hnodup
    unfold levelOrder
    refine ⟨List.nodup_append.mpr ⟨hxs, hnext, fun a ha b hb hab => ?_⟩, fun es hes => ?_⟩
    · have := hge b hb
      have := hn a ha
      subst hab
      omega
    · rcases List.mem_append.mp hes with hes | hes
      · exact Nat.le_of_eq (hn es hes).symm
      · have := hge es hes
        omega

end Search
