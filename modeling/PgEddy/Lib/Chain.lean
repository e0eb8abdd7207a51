import Mathlib.Data.List.Basic

/-!
# Singly linked chains in an addressed store

A store of cells is seen through `next`, which gives the address a cell points to, or none at the end. `Chain next h l` says
that following `next` from the head `h` visits exactly the cells of `l`, in order, and ends. New cells are pushed at the head
and no cell is ever relinked, so what has to be shown of a store update is that it leaves `next` alone on the cells of a chain.
-/

namespace LinkedChain

variable {α : Type} {next next' : α → Option α} {h h' : Option α} {l l' : List α} {a : α}

/-- Following `next` from the head visits exactly the cells listed, and ends. -/
inductive Chain (next : α → Option α) : Option α → List α → Prop where
  | nil : Chain next none []
  | cons {a : α} {l : List α} : Chain next (next a) l → Chain next (some a) (a :: l)

theorem chain_none_iff : Chain next none l ↔ l = [] := by
  constructor
  · intro hc; cases hc; rfl
  · rintro rfl; exact Chain.nil

theorem chain_some_iff : Chain next (some a) l ↔ ∃ t, l = a :: t ∧ Chain next (next a) t := by
  constructor
  · intro hc
    cases hc with
    | cons ht => exact ⟨_, rfl, ht⟩
  · rintro ⟨t, rfl, ht⟩; exact Chain.cons ht

/-- A head has one chain. -/
theorem Chain.unique (hc : Chain next h l) (hc' : Chain next h l') : l = l' := by
  induction hc generalizing l' with
  | nil => exact (chain_none_iff.mp hc').symm
  | cons _ ih =>
    obtain ⟨t, rfl, ht⟩ := chain_some_iff.mp hc'
    rw [ih ht]

/-- The frame rule: a store that agrees on the cells of a chain has the chain. -/
theorem Chain.frame (hc : Chain next h l) (hf : ∀ a ∈ l, next' a = next a) : Chain next' h l := by
  induction hc with
  | nil => exact Chain.nil
  | cons _ ih =>
    refine Chain.cons ?_
    rw [hf _ List.mem_cons_self]
    exact ih (fun b hb => hf b (List.mem_cons_of_mem _ hb))

/-- A cell that points to the head of a chain, pushed in front of it. -/
theorem Chain.push (hc : Chain next h l) (ha : next' a = h) (hf : ∀ b ∈ l, next' b = next b) :
    Chain next' (some a) (a :: l) :=
  Chain.cons (ha ▸ hc.frame hf)

/-! ## Cells that point back -/

/-- The cells of a store in the order in which they came: each points to an earlier one, or to none. -/
inductive BackLinked (next : α → Option α) : List α → Prop where
  | nil : BackLinked next []
  | snoc {l : List α} {a : α} : BackLinked next l → (∀ b, next a = some b → b ∈ l) → BackLinked next (l ++ [a])

/-- A store that agrees on the cells has the same order. -/
theorem BackLinked.congr (h : BackLinked next l) (hf : ∀ a ∈ l, next' a = next a) : BackLinked next' l := by
  induction h with
  | nil => exact .nil
  | snoc _ hnew ih =>
    refine .snoc (ih fun a ha => hf a (List.mem_append_left _ ha)) fun b hb => hnew b ?_
    rw [← hf _ (List.mem_append_right _ List.mem_cons_self)]
    exact hb

/-- No cell points out of the store. -/
theorem BackLinked.mem (h : BackLinked next l) {b : α} (ha : a ∈ l) (hb : next a = some b) : b ∈ l := by
  induction h with
  | nil => cases ha
  | snoc _ hnew ih =>
    rcases List.mem_append.mp ha with ha | ha
    · exact List.mem_append_left _ (ih ha)
    · rw [List.mem_singleton.mp ha] at hb
      exact List.mem_append_left _ (hnew b hb)

/-- Following `next` from any cell ends. -/
theorem BackLinked.chain (h : BackLinked next l) (ha : a ∈ l) : ∃ c, Chain next (some a) c := by
  induction h generalizing a with
  | nil => cases ha
  | @snoc l d _ hnew ih =>
    rcases List.mem_append.mp ha with ha | ha
    · exact ih ha
    · rw [List.mem_singleton.mp ha]
      cases hd : next d with
      | none => exact ⟨[d], .cons (hd ▸ .nil)⟩
      | some b =>
        obtain ⟨c, hc⟩ := ih (hnew b hd)
        exact ⟨d :: c, .cons (hd ▸ hc)⟩

end LinkedChain
