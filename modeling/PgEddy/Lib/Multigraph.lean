import Mathlib.Data.List.Nodup

/-!
# Directed multigraphs with deletion

A graph is the list of its edges, newest first. Edges have ids, so parallel edges and self-loops are edges like any other. Ids,
vertices, labels and payloads are of any type.
-/

namespace Multigraph

/-- An edge of a multigraph. -/
structure Edge (ι ν τ π : Type) where
  id : ι
  label : τ
  source : ν
  target : ν
  payload : π
  deriving DecidableEq, Repr

variable {ι ν τ π : Type} [DecidableEq ν]

/-- Remove the edge with an id. -/
def unlink [DecidableEq ι] (g : List (Edge ι ν τ π)) (id : ι) : List (Edge ι ν τ π) := g.filter (fun e => e.id ≠ id)

/-- The edges that leave a vertex, newest first. -/
def outEdges (g : List (Edge ι ν τ π)) (accepts : τ → Bool) (n : ν) : List (Edge ι ν τ π) :=
  g.filter (fun e => e.source = n && accepts e.label)

/-- The edges that enter a vertex, newest first. -/
def inEdges (g : List (Edge ι ν τ π)) (accepts : τ → Bool) (n : ν) : List (Edge ι ν τ π) :=
  g.filter (fun e => e.target = n && accepts e.label)

/-- The edges with the vertex at either end, each once. -/
def incident (g : List (Edge ι ν τ π)) (accepts : τ → Bool) (n : ν) : List (Edge ι ν τ π) :=
  g.filter (fun e => (e.source = n || e.target = n) && accepts e.label)

/-- A list of the edges at either end without repetition is the list of incident edges, up to order. -/
theorem perm_incident {g l : List (Edge ι ν τ π)} {accepts : τ → Bool} {n : ν} (hg : g.Nodup) (hl : l.Nodup)
    (h : ∀ e, e ∈ l ↔ e ∈ outEdges g accepts n ∨ e ∈ inEdges g accepts n) : l.Perm (incident g accepts n) := by
  refine (List.perm_ext_iff_of_nodup hl (hg.filter _)).mpr fun e => ?_
  rw [h]
  simp only [outEdges, inEdges, List.mem_filter, Bool.and_eq_true, Bool.or_eq_true, decide_eq_true_eq]
  tauto

end Multigraph
