import PgEddy.Lemmas.EdgeFates
import PgEddy.Lemmas.EdgeGraph

/-!
# Edge writes of a transaction that aborts

A deletion and an update of properties are written in place and stay, whatever becomes of the transaction. So a history shows
the calls of one of its transactions unless others covered them: deleted the same edges, and wrote the properties last.
-/

namespace PgEddy

open Machine

/-- The step is a storage call of the transaction. -/
def HistoryOp.isCallOf (xid : Xid) : HistoryOp → Bool
  | .call op => op.xid == xid
  | .updateEdgeProps xid' .. => xid' == xid
  | _ => false

/-- The history in which the transaction begins and ends as before but calls nothing. -/
def withoutCallsOf (xid : Xid) (ops : List HistoryOp) : List HistoryOp := ops.filter (fun op => !op.isCallOf xid)

/-- `find_edge_by_id` returns the same on two stores, for every edge id. -/
def SameFinds (be : Backend) (s t : Store) : Prop := ∀ edgeId, findEdgeById be s.edges edgeId = findEdgeById be t.edges edgeId

/-- The calls of a transaction on an edge leave no trace: another transaction deletes the edge, or nobody does and the last
update of the edge that takes effect is not the transaction's or wrote what the edge has without it. -/
def LeavesNoTrace (x : XactState) (xid : Xid) (ops : List HistoryOp) (e : EdgeItem) (r : EdgeRecord) : Prop :=
  (withoutCallsOf xid ops).any (·.deletes e.edgeId) = true ∨
    ops.any (·.deletes e.edgeId) = false ∧
      ∀ newPropBytes, e.lastProps x ops = some (xid, newPropBytes) →
        newPropBytes = (r.withProps (e.lastProps x (withoutCallsOf xid ops))).propBytes

namespace AbortedWritesAux

variable {xid : Xid} {ops : List HistoryOp}

theorem withoutCallsOf_cons (op : HistoryOp) :
    withoutCallsOf xid (op :: ops) = if op.isCallOf xid then withoutCallsOf xid ops else op :: withoutCallsOf xid ops := by
  cases h : op.isCallOf xid <;> simp [withoutCallsOf, h]

/-- Calls do not change the transactions. -/
theorem after_of_isCallOf {op : HistoryOp} (h : op.isCallOf xid = true) (x : XactState) : x.after op = x := by
  cases op <;> first | rfl | cases h

/-- The history without the calls is a run, and ends with the same transactions. -/
theorem run_withoutCallsOf (xid : Xid) {pg : PgSys} :
    ∀ {ops : List HistoryOp} {h h' : HistoryState}, (∀ op ∈ ops, op.isEdgeWrite = true) → DistinctEdgeIds h.store.edges →
      run (HistoryState.step pg) h ops = some h' →
      ∀ s, ∃ t, run (HistoryState.step pg) ⟨h.xact, s⟩ (withoutCallsOf xid ops) = some ⟨h'.xact, t⟩
  | [], _, _, _, _, hr, s => by
    cases hr
    exact ⟨s, rfl⟩
  | op :: ops, h, h', hops, hids, hr, s => by
    obtain ⟨u, hu, hur⟩ := run_cons.mp hr
    obtain ⟨hop, hrest⟩ := List.forall_mem_cons.mp hops
    obtain ⟨hx, hitems⟩ := HistoryState.edgeItems_step hop hids hu
    have hids' := hids.map _ hitems (fun e => EdgeItem.edgeId_after h.xact e op)
    rw [withoutCallsOf_cons]
    split
    · next hc =>
      rw [after_of_isCallOf hc] at hx
      rw [← hx]
      exact run_withoutCallsOf xid hrest hids' hur s
    · obtain ⟨t, ht⟩ := HistoryState.step_on_other_store hop hu s
      obtain ⟨t', ht'⟩ := run_withoutCallsOf xid hrest hids' hur t
      exact ⟨t', run_cons.mpr ⟨_, ht, ht'⟩⟩

/-- The last update stays the last one when it is of another transaction. -/
theorem lastProps_withoutCallsOf (xid : Xid) (e : EdgeItem) (x : XactState) (ops : List HistoryOp) :
    (∀ y b, e.lastProps x ops = some (y, b) → y ≠ xid → e.lastProps x (withoutCallsOf xid ops) = some (y, b)) ∧
      (e.lastProps x ops = none → e.lastProps x (withoutCallsOf xid ops) = none) := by
  induction ops generalizing x with
  | nil => exact ⟨fun _ _ h _ => h, fun h => h⟩
  | cons op ops ih =>
    obtain ⟨ih1, ih2⟩ := ih (x.after op)
    rw [withoutCallsOf_cons]
    by_cases hc : op.isCallOf xid = true
    · rw [if_pos hc, ← after_of_isCallOf hc x]
      rw [after_of_isCallOf hc x] at ih1 ih2 ⊢
      simp only [EdgeItem.lastProps, after_of_isCallOf hc, Option.or_eq_some_iff, Option.or_eq_none_iff]
      refine ⟨fun y b h hy => ?_, fun h => ih2 h.1⟩
      rcases h with h | ⟨-, h⟩
      · exact ih1 y b h hy
      · split at h
        · split at h
          · cases h
            exact absurd (eq_of_beq hc) hy
          · cases h
        · cases h
    · rw [if_neg hc]
      simp only [EdgeItem.lastProps, Option.or_eq_some_iff, Option.or_eq_none_iff]
      refine ⟨fun y b h hy => ?_, fun h => ⟨ih2 h.1, h.2⟩⟩
      rcases h with h | ⟨hnone, h⟩
      · exact Or.inl (ih1 y b h hy)
      · exact Or.inr ⟨ih2 hnone, h⟩

theorem withProps_eq_iff {r : EdgeRecord} {u v : Option (Xid × Bytes)} :
    r.withProps u = r.withProps v ↔ (r.withProps u).propBytes = (r.withProps v).propBytes := by
  have heq : ∀ w, r.withProps w = { r with propBytes := (r.withProps w).propBytes } := by
    intro w
    cases w <;> rfl
  exact ⟨congrArg _, fun h => by rw [heq u, heq v, h]⟩

/-- An edge is read alike at the end of both histories exactly if the calls leave no trace on it. -/
theorem read_evolve_iff {be : Backend} {x : XactState} {e : EdgeItem} {r : EdgeRecord} (hr : e.read be = some r) :
    (e.evolve x ops).read be = (e.evolve x (withoutCallsOf xid ops)).read be ↔ LeavesNoTrace x xid ops e r := by
  rw [EdgeItem.read_evolve be ops hr, EdgeItem.read_evolve be (withoutCallsOf xid ops) hr, LeavesNoTrace]
  have hsub : (withoutCallsOf xid ops).any (·.deletes e.edgeId) = true → ops.any (·.deletes e.edgeId) = true := by
    intro h
    obtain ⟨op, hop, hd⟩ := List.any_eq_true.mp h
    exact List.any_eq_true.mpr ⟨op, (List.mem_filter.mp hop).1, hd⟩
  cases hall : ops.any (·.deletes e.edgeId) with
  | true => cases hothers : (withoutCallsOf xid ops).any (·.deletes e.edgeId) <;> simp
  | false =>
    have hothers : (withoutCallsOf xid ops).any (·.deletes e.edgeId) = false := by
      rw [Bool.eq_false_iff]
      exact fun h => by rw [hsub h] at hall; cases hall
    simp only [hothers, Bool.false_eq_true, if_false, false_or, true_and, Option.some.injEq]
    obtain ⟨hsame, hnone⟩ := lastProps_withoutCallsOf xid e x ops
    cases hl : e.lastProps x ops with
    | none => simp [hnone hl]
    | some yb =>
      obtain ⟨y, b⟩ := yb
      by_cases hy : y = xid
      · subst hy
        rw [withProps_eq_iff]
        simp [EdgeRecord.withProps]
      · simp [hsame y b hl hy, hy]

/-- Two runs from one edge relation find the same exactly if they read every edge alike. -/
theorem sameFinds_iff {be : Backend} {s t u : Store} {f g : EdgeItem → EdgeItem} (hs : DistinctEdgeIds s.edges)
    (ht : edgeItems t.edges = (edgeItems s.edges).map f) (hu : edgeItems u.edges = (edgeItems s.edges).map g)
    (hf : ∀ e, (f e).edgeId = e.edgeId) (hg : ∀ e, (g e).edgeId = e.edgeId) :
    SameFinds be t u ↔ ∀ e ∈ edgeItems s.edges, (f e).read be = (g e).read be := by
  have htids := hs.map f ht hf
  have huids := hs.map g hu hg
  have hfind : ∀ e ∈ edgeItems s.edges, findEdgeById be t.edges e.edgeId = (f e).read be ∧
      findEdgeById be u.edges e.edgeId = (g e).read be := by
    intro e he
    constructor
    · rw [← hf e]
      exact htids.findEdgeById (ht ▸ List.mem_map_of_mem he) be
    · rw [← hg e]
      exact huids.findEdgeById (hu ▸ List.mem_map_of_mem he) be
  constructor
  · intro h e he
    rw [← (hfind e he).1, ← (hfind e he).2]
    exact h e.edgeId
  · intro h edgeId
    by_cases hex : ∃ e ∈ edgeItems s.edges, e.edgeId = edgeId
    · obtain ⟨e, he, rfl⟩ := hex
      rw [(hfind e he).1, (hfind e he).2, h e he]
    · have hnone : ∀ {v : Store} {k : EdgeItem → EdgeItem}, edgeItems v.edges = (edgeItems s.edges).map k →
          (∀ e, (k e).edgeId = e.edgeId) → findEdgeById be v.edges edgeId = none := by
        intro v k hv hk
        refine findEdgeById_eq_none fun d hd hid => ?_
        obtain ⟨e, he, rfl⟩ := List.mem_map.mp (hv ▸ hd)
        exact hex ⟨e, he, (hk e).symm.trans hid⟩
      rw [hnone ht hf, hnone hu hg]

end AbortedWritesAux

/-- For every history of edge deletions and updates of edge properties and each of its transactions: had the transaction called
nothing, a reader at the end would find the same for every edge id exactly if its calls leave no trace on any edge the reader
would have read at the start. -/
theorem finds_without_calls_iff (pg : PgSys) {h h' : HistoryState} {ops : List HistoryOp}
    (hids : DistinctEdgeIds h.store.edges) (hops : ∀ op ∈ ops, op.isEdgeWrite = true)
    (hrun : run (HistoryState.step pg) h ops = some h') (xid me : Xid) :
    ∃ h'', run (HistoryState.step pg) h (withoutCallsOf xid ops) = some h'' ∧ h''.xact = h'.xact ∧
      (SameFinds (h'.xact.backend me) h'.store h''.store ↔
        ∀ e ∈ edgeItems h.store.edges, ∀ r, e.read (h'.xact.backend me) = some r → LeavesNoTrace h.xact xid ops e r) := by
  obtain ⟨t, ht⟩ := AbortedWritesAux.run_withoutCallsOf xid hops hids hrun h.store
  have hops' : ∀ op ∈ withoutCallsOf xid ops, op.isEdgeWrite = true := fun op hop => hops op (List.mem_filter.mp hop).1
  refine ⟨⟨h'.xact, t⟩, ht, rfl, ?_⟩
  rw [AbortedWritesAux.sameFinds_iff hids (HistoryState.edgeItems_run hops hids hrun).2
    (HistoryState.edgeItems_run hops' hids ht).2 (fun e => EdgeItem.edgeId_evolve ..) (fun e => EdgeItem.edgeId_evolve ..)]
  refine forall₂_congr fun e _ => ?_
  cases hr : e.read (h'.xact.backend me) with
  | none => simp [EdgeItem.read_evolve_none _ hr]
  | some r =>
    rw [AbortedWritesAux.read_evolve_iff hr]
    simp

/-- An edge between two nodes, all of transaction 3. -/
def linkedNodes : Store := (insertEdge postgres 3 .empty twoNodes 1 7 1 2 [8]).1

/-- Transaction 4 updates the edge and aborts; transaction 5 updates it afterwards and commits; transaction 6 begins. -/
def coveredUpdate : List HistoryOp :=
  [.begin, .updateEdgeProps 4 1 [9], .abort 4, .begin, .updateEdgeProps 5 1 [10, 11], .commit 5, .begin]

theorem finds_without_calls_iff_covered_update :
    ∃ h' h'', run (HistoryState.step postgres) ⟨afterNodes, linkedNodes⟩ coveredUpdate = some h' ∧
      run (HistoryState.step postgres) ⟨afterNodes, linkedNodes⟩ (withoutCallsOf 4 coveredUpdate) = some h'' ∧
      h''.xact = h'.xact ∧
      (SameFinds (h'.xact.backend 6) h'.store h''.store ↔
        ∀ e ∈ edgeItems linkedNodes.edges, ∀ r, e.read (h'.xact.backend 6) = some r →
          LeavesNoTrace afterNodes 4 coveredUpdate e r) := by
  have hsome : (run (HistoryState.step postgres) ⟨afterNodes, linkedNodes⟩ coveredUpdate).isSome = true := by decide +kernel
  obtain ⟨h', hrun⟩ := Option.isSome_iff_exists.mp hsome
  have hids : DistinctEdgeIds linkedNodes.edges := by decide +kernel
  obtain ⟨h'', hrun', hx, hiff⟩ := finds_without_calls_iff postgres (h := ⟨afterNodes, linkedNodes⟩) hids (by decide) hrun 4 6
  exact ⟨h', h'', hrun, hrun', hx, hiff⟩

/-- Transaction 4 deletes the edge and aborts; transaction 5 begins. -/
def abortedDeleteEdge : List HistoryOp := [.begin, .call (.deleteEdge 4 1), .abort 4, .begin]

/-- Transaction 4 updates the edge and aborts; transaction 5 begins. -/
def abortedUpdate : List HistoryOp := [.begin, .updateEdgeProps 4 1 [9], .abort 4, .begin]

/-- Transaction 5 finds other edges after the history than after the one without the calls of transaction 4. -/
def AbortIsSeen (ops : List HistoryOp) : Prop :=
  ∃ h' h'', run (HistoryState.step postgres) ⟨afterNodes, linkedNodes⟩ ops = some h' ∧
    run (HistoryState.step postgres) ⟨afterNodes, linkedNodes⟩ (withoutCallsOf 4 ops) = some h'' ∧
    ¬SameFinds (h'.xact.backend 5) h'.store h''.store

theorem abortIsSeen_of_edge {ops : List HistoryOp}
    (h : (run (HistoryState.step postgres) ⟨afterNodes, linkedNodes⟩ ops).any (fun h' =>
      (run (HistoryState.step postgres) ⟨afterNodes, linkedNodes⟩ (withoutCallsOf 4 ops)).any (fun h'' =>
        decide (findEdgeById (h'.xact.backend 5) h'.store.edges 1 ≠
          findEdgeById (h'.xact.backend 5) h''.store.edges 1))) = true) : AbortIsSeen ops := by
  obtain ⟨h', hrun, hc⟩ := (Option.any_eq_true _ _).mp h
  obtain ⟨h'', hrun', hc⟩ := (Option.any_eq_true _ _).mp hc
  exact ⟨h', h'', hrun, hrun', fun hsame => of_decide_eq_true hc (hsame 1)⟩

/-- The deletion of an aborted transaction hides the edge, and its update of the properties is read. -/
theorem aborted_writes_are_found : AbortIsSeen abortedDeleteEdge ∧ AbortIsSeen abortedUpdate :=
  ⟨abortIsSeen_of_edge (by decide +kernel), abortIsSeen_of_edge (by decide +kernel)⟩

end PgEddy
