import PgEddy.Lemmas.Destinations
import PgEddy.Traversal

/-!
# Expanding rows one by one

The filters of a destination may refer to variables of the input row, but what they say in the first row that reaches a
destination is used for every later row. So an expansion of two lists of rows need not be that of the one and of the other.
-/

namespace PgEddy

variable (E : Engine) (G : Graph) (op : Expand) (params : Params)

/-- Where the filters of a destination say something else in the first row of the second list that reaches it than in the first
row of the first list, no relationship from the second list to it passes the other tests. -/
def AnswersAgree (rows rows' : List E.Row) : Prop :=
  ∀ nodeId i j, Memo.firstOf (Hop.dst op) (hopsOf E G op params rows) nodeId = some i →
    Memo.firstOf (Hop.dst op) (hopsOf E G op params rows') nodeId = some j → dstIn G op params i ≠ dstIn G op params j →
    ∀ v, dstIn G op params i = .ok (some v) ∨ dstIn G op params j = .ok (some v) →
      ∀ h ∈ hopsOf E G op params rows', h.dst op = nodeId → hopRows op params h v = .ok []

variable {E G op params}

/-- An expansion of two lists of rows gives the rows of the first and then those of the second if and only if the filters of the
destinations that both lists reach agree. -/
theorem expand_append_iff (hop : op.optional = false) (hnames : op.relVar ≠ some op.dstVar) {rows rows' outs outs' : List E.Row}
    (h : execExpand E G op rows params = .ok outs) (h' : execExpand E G op rows' params = .ok outs') :
    execExpand E G op (rows ++ rows') params = .ok (outs ++ outs') ↔
      dstLabelUnsatisfiable G op = true ∨ AnswersAgree E G op params rows rows' := by
  unfold execExpand at h h' ⊢
  cases hlabel : dstLabelUnsatisfiable G op with
  | true =>
    rw [hlabel, hop] at h h'
    cases h
    cases h'
    simp [hop]
  | false =>
    rw [hlabel, hop] at h h'
    simp only [Bool.false_eq_true, ↓reduceIte, Bool.false_and] at h h'
    obtain ⟨a, ha, heq⟩ := Fallible.bind_eq_ok.mp h
    obtain ⟨b, hb, heq'⟩ := Fallible.bind_eq_ok.mp h'
    cases heq
    cases heq'
    have hsources := expandRows_sources ha
    have hsources' := expandRows_sources hb
    rw [expandRows_eq_run hop hsources] at ha
    rw [expandRows_eq_run hop hsources'] at hb
    obtain ⟨⟨_, cache⟩, hrun, rfl⟩ := Fallible.map_eq_ok.mp ha
    obtain ⟨⟨_, cache'⟩, hrun', rfl⟩ := Fallible.map_eq_ok.mp hb
    have hhops : hopsOf E G op params (rows ++ rows') = hopsOf E G op params rows ++ hopsOf E G op params rows' :=
      List.flatMap_append
    have hrows := expandRows_eq_run (G := G) hop (List.forall_mem_append.mpr ⟨hsources, hsources'⟩) []
    rw [hhops] at hrows
    have hiff := Memo.run_append_iff (fun r : E.Row => r[op.dstVar]?.bind Value.nodeId)
      (fun i j v o hkey hask ho r hr => by
        obtain ⟨n, -, rfl⟩ := dstIn_eq_some hask
        rw [hopRows_dst hnames ho r hr, hkey]
        rfl)
      (fun i j b c hkey hb hc => by
        obtain ⟨r, hr, rfl⟩ := dstIn_eq_some hb
        obtain ⟨r', hr', rfl⟩ := dstIn_eq_some hc
        rw [hkey] at hr ⊢
        cases hr.symm.trans hr'
        rfl) hrun hrun'
    rw [← hrows] at hiff
    simp only [Bool.false_eq_true, ↓reduceIte, hop, Bool.false_and, false_or, bind_pure]
    exact hiff

/-! ### Two rows that expect different properties of one node -/

namespace ExpandCacheAux

/-- The node 3 with the property `k` and relationships from the nodes 1 and 2 to it. -/
def fork : Graph :=
  .ofLists [(1, ⟨[], []⟩), (2, ⟨[], []⟩), (3, ⟨[], [("k", .bool true)]⟩)] [⟨10, "R", 1, 3, []⟩, ⟨11, "R", 2, 3, []⟩]

/-- `(a)-[r]->(b {k: x})`. -/
def expandToK : Expand := ⟨"a", some "r", "b", [], .out, [], [], [("k", .var "x")], false, none⟩

/-- A row with its source node and the expected property. -/
def rowOf (nodeId : Int64) (x : Bool) : Engine.bare.Row :=
  ((∅ : Engine.bare.Row).insert "a" (.node nodeId [] [])).insert "x" (.bool x)

/-- The counts of the rows of two expansions, and of both at once. -/
def counts (x x' : Bool) : Option (Nat × Nat × Nat) :=
  match execExpand .bare fork expandToK [rowOf 1 x] ∅, execExpand .bare fork expandToK [rowOf 2 x'] ∅,
    execExpand .bare fork expandToK ([rowOf 1 x] ++ [rowOf 2 x']) ∅ with
  | .ok outs, .ok outs', .ok both => some (outs.length, outs'.length, both.length)
  | _, _, _ => none

end ExpandCacheAux

open ExpandCacheAux

/-- Two rows that expect the same. -/
theorem expand_append_same : ∃ outs outs',
    execExpand .bare fork expandToK [rowOf 1 true] ∅ = .ok outs ∧ execExpand .bare fork expandToK [rowOf 2 true] ∅ = .ok outs' ∧
      (execExpand .bare fork expandToK ([rowOf 1 true] ++ [rowOf 2 true]) ∅ = .ok (outs ++ outs') ↔
        dstLabelUnsatisfiable fork expandToK = true ∨
          AnswersAgree .bare fork expandToK ∅ [rowOf 1 true] [rowOf 2 true]) := by
  have hcounts : counts true true = some (1, 1, 2) := by decide +kernel
  unfold counts at hcounts
  split at hcounts
  · rename_i outs outs' both h h' hboth
    exact ⟨outs, outs', h, h', expand_append_iff rfl (by decide) h h'⟩
  · cases hcounts

/-- The first row expects the property that the node has, and the second row does not. Together both match. -/
theorem expand_append_differs : ∃ outs outs',
    execExpand .bare fork expandToK [rowOf 1 true] ∅ = .ok outs ∧ execExpand .bare fork expandToK [rowOf 2 false] ∅ = .ok outs' ∧
      execExpand .bare fork expandToK ([rowOf 1 true] ++ [rowOf 2 false]) ∅ ≠ .ok (outs ++ outs') := by
  have hcounts : counts true false = some (1, 0, 2) := by decide +kernel
  unfold counts at hcounts
  split at hcounts
  · rename_i outs outs' both h h' hboth
    refine ⟨outs, outs', h, h', fun heq => ?_⟩
    rw [hboth] at heq
    cases heq
    injection hcounts with hcounts
    injection hcounts with houts hcounts
    injection hcounts with houts' hboth'
    rw [List.length_append, houts, houts'] at hboth'
    cases hboth'
  · cases hcounts

end PgEddy
