import PgEddy.Lemmas.Changes

/-!
# Collected index rows

The index rows of a creation are collected while its operator runs, and written or lost when it ends. Between two operators no
rows are collected, so every other change is made when there are none (`run_outsideBuffer`).
-/

namespace PgEddy

open Recorded Write ProgramAux

variable {ch : Chrono} {W : World ch}

/-- The change is part of a creation, or no index rows are collected when it is made. -/
def OutsideBuffer (e : Change × Session) : Prop := Creation e.1 ∨ e.2.buf = {}

namespace BufferAux

theorem buf_onNode {nodeId : Int64} {f : NodeEntry → Session → Session} {s : Session} (hf : ∀ r, (f r s).buf = s.buf) :
    (Change.onNode nodeId f s).buf = s.buf :=
  Change.onNode_cases (P := fun t => t.buf = s.buf) rfl fun r _ => hf r

theorem buf_indexNodeUpdate (nodeId : Int64) (labels : List String) (props : List (String × Json)) (s : Session) :
    (s.indexNodeUpdate nodeId labels props).buf = s.buf := by
  obtain ⟨rows, looked, h⟩ := Session.indexNodeUpdate_eq nodeId props labels s
  rw [h]

theorem buf_deleteNodeRun (via : DeletePath) (nodeId : Int64) (s : Session) :
    (Change.deleteNodeRun via nodeId s).buf = s.buf := by
  cases via with
  | api | apiDetach => exact buf_onNode fun _ => rfl
  | node | detach | path => rfl

theorem buf_of_single {c : Change} {s s' : Session} (hc : Single c) (hrun : c.run s = (s', .ok ())) : s'.buf = s.buf := by
  cases hc with
  | createNode =>
    obtain ⟨seq, rows, looked, -, rfl⟩ := Change.run_createNode hrun
    rfl
  | createEdge =>
    obtain ⟨seq, -, -, -, rfl⟩ := Change.run_createEdge hrun
    rfl
  | updateNode | setProps =>
    cases hrun
    exact buf_onNode fun _ => buf_indexNodeUpdate _ _ _ _
  | removeProp | addLabels | removeLabels =>
    cases hrun
    exact buf_onNode fun _ => rfl
  | deleteNode =>
    cases hrun
    exact buf_deleteNodeRun _ _ _
  | _ =>
    cases hrun
    rfl

theorem buf_of_deletion {c : Change} {s s' : Session} (hc : Deletion c) (hrun : c.run s = (s', .ok ())) : s'.buf = s.buf := by
  cases hc with
  | edge =>
    cases hrun
    rfl
  | node =>
    cases hrun
    exact buf_deleteNodeRun _ _ _

/-- Nothing is collected. -/
def Drained (s : Session) : Prop := s.buf = {}

theorem ends_flush : Ends Stop.fatal Drained (Write.change W .flush) := by
  apply Ends.act
  · intro s s' happly
    cases CallAux.run_of_apply happly
    rfl
  · intro s s' e herr
    exact CallAux.fatal_of_error herr

theorem ends_abandon : Ends Stop.fatal Drained (Write.change W .abandon) := by
  apply Ends.act
  · intro s s' happly
    cases CallAux.run_of_apply happly
    rfl
  · intro s s' e herr
    exact CallAux.fatal_of_error herr

/-- Nothing is collected before and after each part of a call, other than the creations themselves. -/
theorem covers_drained :
    Covers W (fun {α} (x : Write α) => Keeps Stop.fatal (fun _ => True) Drained OutsideBuffer x) := by
  have hcreates : Creates W (fun {α} (x : Write α) => Emits OutsideBuffer x) :=
    ⟨⟨Emits.closed _ _⟩, fun _ hc => Emits.act fun _ => .inl hc⟩
  have hdeletes : Deletes W (fun {α} (x : Write α) => Keeps Stop.fatal (fun _ => True) Drained OutsideBuffer x) := by
    refine ⟨⟨Keeps.closed _ _ _ _⟩, fun c hc => CallAux.keeps_change (fun s hs _ => .inr hs) ?_⟩
    intro s s' _ hs hrun
    exact (buf_of_deletion hc hrun).trans hs
  exact
    { toComposes := hdeletes.toComposes
      change := fun c hc => CallAux.keeps_change (fun s hs _ => .inr hs) fun s s' _ hs hrun => (buf_of_single hc hrun).trans hs
      createRows := fun patterns rows params =>
        (hcreates.createRows patterns rows params).keeps (ends_abandon.onError_then ends_flush)
      createMerged := fun pattern row params =>
        (hcreates.buffered (hcreates.createPatternInRow pattern row params)).keeps (ends_abandon.onError_then ends_flush)
      deleteRows := hdeletes.deleteRows
      detachDeleteNode := hdeletes.detachDeleteNode }

end BufferAux

open BufferAux

theorem call_drained {c : Call ch} {s t : Session} (hs : s.buf = {}) (ht : c.step W s = some t) : t.buf = {} :=
  CallAux.call_keeps (covers_drained.call c) (fun _ => rfl) hs (fun _ _ => trivial) ht

theorem commits_outsideBuffer {s : Session} (hs : s.buf = {}) (c : Call ch) : c.Commits W OutsideBuffer s :=
  CallAux.commits_of_keeps (covers_drained.call c) hs fun _ _ => trivial

/-- An invariant that is kept by every creation, and by every other change when no index rows are collected, is kept by every
run of calls. -/
theorem run_keeps_outsideBuffer {P : Change × Session → Prop} {I : Session → Prop}
    (h : ∀ c s s', P (c, s) → OutsideBuffer (c, s) → I s → c.run s = (s', .ok ()) → I s')
    (hroll : ∀ s s', s.buf = {} → I s → I (s.rollback s')) {calls : List (Call ch)} {s t : Session} (hbuf : s.buf = {}) (hs : I s)
    (hcalls : Machine.EveryCall (Call.step W) (Call.Commits W P) s calls)
    (hrun : Machine.run (Call.step W) s calls = some t) : I t ∧ t.buf = {} := by
  have hcov : Covers W (fun {α} (x : Write α) => Keeps Stop.fatal (fun e => P e ∧ OutsideBuffer e) I (fun _ => True) x) :=
    Composes.covers ⟨Keeps.closed _ _ _ _⟩ fun c =>
      CallAux.keeps_change (fun _ _ _ => trivial) fun s s' hP => h c s s' hP.1 hP.2
  refine Machine.run_invariant (I := fun s => I s ∧ s.buf = {}) ?_ ⟨hs, hbuf⟩ hcalls hrun
  rintro s c t ⟨hs, hbuf⟩ hc ht
  refine ⟨?_, call_drained hbuf ht⟩
  exact CallAux.call_keeps (hcov.call c) (fun s' => hroll s s' hbuf hs) hs
    (fun e he => ⟨hc e he, commits_outsideBuffer hbuf c e he⟩) ht

end PgEddy
