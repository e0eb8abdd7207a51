import PgEddy.Lemmas.GraphSteps

/-!
# What `adjacency_follow` depends on

The walk starts from the header of the node's slot on the node's block. It does not depend on which version of the node is met,
nor on where on the block that version is.
-/

namespace PgEddy

/-- `adjacency_follow` reads the header of the location it finds. -/
theorem adjacencyFollow_eq {nodes : Relation} (hn : NodePages nodes) (edges : Relation) (cache : LocationCache) (n : Int64)
    (direction : Direction) (relTypeFilter : Option Int32) (fuel : Nat) :
    adjacencyFollow cache nodes edges n direction relTypeFilter fuel =
      match findNodeLocation cache nodes n with
      | .error e => some (.error e)
      | .ok none => some (.ok [])
      | .ok (some (blk, _, slot)) =>
        match headerAt nodes (blk, slot) with
        | none => some (.error .outOfPage)
        | some adj => followHeader edges adj direction relTypeFilter fuel := by
  cases hf : findNodeLocation cache nodes n with
  | error e => simp only [adjacencyFollow, hf]
  | ok r =>
    cases r with
    | none => simp only [adjacencyFollow, hf]
    | some l =>
      obtain ⟨blk, off, slot⟩ := l
      obtain ⟨v, hv, -⟩ := located_of_findNodeLocation hn hf
      obtain ⟨page, hp, -⟩ := versionAt_eq_some.mp hv
      dsimp only at hp
      cases hh : readAdjHeader page slot <;> simp only [adjacencyFollow, hf, readBuffer, headerAt, hp, hh, Option.bind_some]

/-- A change of the node relation that keeps the block, the slot and the header of a node, and adds no block, keeps its
adjacency. -/
theorem adjacencyFollow_congr {nodes nodes' : Relation} (hn : NodePages nodes) (hu : UniqueUnmarked nodes)
    (hn' : NodePages nodes') (hu' : UniqueUnmarked nodes') (edges : Relation) {n : Int64} (hlen : nodes'.length = nodes.length)
    (hloc : ∀ b o a, Located nodes n b o a → ∃ o', Located nodes' n b o' a)
    (hback : ∀ b o a, Located nodes' n b o a → ∃ b' o' a', Located nodes n b' o' a')
    (hh : ∀ b o a, Located nodes n b o a → headerAt nodes' (b, a) = headerAt nodes (b, a)) (cache : LocationCache)
    (direction : Direction) (relTypeFilter : Option Int32) (fuel : Nat) :
    adjacencyFollow cache nodes' edges n direction relTypeFilter fuel =
      adjacencyFollow cache nodes edges n direction relTypeFilter fuel := by
  have hscan : (∃ b o o' a, Located nodes n b o a ∧ scanNodeLocation nodes n = some (b, o, a) ∧
      scanNodeLocation nodes' n = some (b, o', a)) ∨
      (scanNodeLocation nodes n = none ∧ scanNodeLocation nodes' n = none) := by
    by_cases h : ∃ b o a, Located nodes n b o a
    · obtain ⟨b, o, a, hl⟩ := h
      obtain ⟨o', hl'⟩ := hloc b o a hl
      exact Or.inl ⟨b, o, o', a, hl, scanNodeLocation_of_located hn hu hl, scanNodeLocation_of_located hn' hu' hl'⟩
    · refine Or.inr ⟨(scanNodeLocation_eq_none hn).mpr fun b o a hl => h ⟨b, o, a, hl⟩,
        (scanNodeLocation_eq_none hn').mpr fun b o a hl => h (hback b o a hl)⟩
  rw [adjacencyFollow_eq hn, adjacencyFollow_eq hn', findNodeLocation_eq hn hu, findNodeLocation_eq hn' hu', hlen]
  rcases hscan with ⟨b, o, o', a, hl, hs, hs'⟩ | ⟨hs, hs'⟩
  · have := hh b o a hl
    cases cache n with
    | none => simp only [hs, hs', this]
    | some bo =>
      by_cases hb : bo.1 < nodes.length
      · simp only [hs, hs', hb, if_true, this]
      · simp only [hb, if_false]
  · rw [hs, hs']
    cases cache n with
    | none => rfl
    | some bo => by_cases hb : bo.1 < nodes.length <;> simp only [hb, if_true, if_false]

end PgEddy
