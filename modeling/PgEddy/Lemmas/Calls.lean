import Mathlib.Data.List.Dedup
import PgEddy.Lemmas.Programs

/-!
# Runs of calls

What every committed change keeps, every run of calls keeps (`run_keeps`): a call that fails leaves the database as it was,
but for the sequences. And what every change meets as its operator makes it, every committed change meets
(`commits_of_emits`). The relationships of a node are gone when `DETACH` deletes the node (`commits_detachedFirst`).
-/

namespace PgEddy

open Recorded Write

variable {ch : Chrono} {W : World ch}

/-! ## What changes keep -/

/-- A change of a node that is there keeps what it keeps where the node is, and what holds already. -/
theorem Change.onNode_cases {P : Session → Prop} {nodeId : Int64} {f : NodeEntry → Session → Session} {s : Session} (hs : P s)
    (hf : ∀ r, s.db.findNode nodeId = some r → P (f r s)) : P (Change.onNode nodeId f s) := by
  unfold Change.onNode
  split
  · rename_i r hr
    exact hf r hr
  · exact hs

namespace CallAux

variable {P Q : Change × Session → Prop} {I : Session → Prop}

/-- A change stops only with an error of PostgreSQL. -/
theorem fatal_of_run_error {s s' : Session} {c : Change} {e : Stop} (h : c.run s = (s', .error e)) : e.fatal = true := by
  cases c with
  | createNode via labels props =>
    unfold Change.run Change.createNodeRun at h
    simp only at h
    split at h
    · cases h; rfl
    · cases via with
      | api => cases h
      | destination => cases h
      | pattern =>
        simp only at h
        split at h
        · cases h; rfl
        · cases h
  | createEdge api relType source target props =>
    unfold Change.run Change.createEdgeRun at h
    simp only at h
    split at h
    · cases h; rfl
    · split at h
      · cases h; rfl
      · split at h <;> cases h
  | _ => cases h

theorem fatal_of_error {s s' : Session} {c : Change} {e : Stop} (h : c.apply W s = (s', .error e)) : e.fatal = true := by
  unfold Change.apply at h
  split at h
  · cases h; rfl
  · exact fatal_of_run_error h

theorem run_of_apply {s s' : Session} {c : Change} (h : c.apply W s = (s', .ok ())) : c.run s = (s', .ok ()) := by
  unfold Change.apply at h
  split at h
  · cases h
  · exact h

/-- An invariant that every change keeps where it meets the condition is kept by every program. -/
theorem keeps_change {c : Change} (hQ : ∀ s, I s → P (c, s) → Q (c, s))
    (h : ∀ s s', P (c, s) → I s → c.run s = (s', .ok ()) → I s') : Keeps Stop.fatal P I Q (Write.change W c) :=
  .act hQ (fun s s' hP hI hrun => h s s' hP hI (run_of_apply hrun)) fun _ _ _ herr => fatal_of_error herr

/-- What a call keeps holds after it, also when it fails: then the database is as it was, but for the sequences. -/
theorem call_keeps {c : Call ch} {s t : Session} (h : Keeps Stop.fatal P I Q (c.program W))
    (hroll : ∀ s', I (s.rollback s')) (hs : I s) (hc : c.Commits W P s) (ht : c.step W s = some t) : I t := by
  unfold Call.step at ht
  unfold Call.Commits Call.changes at hc
  rcases hres : Recorded.run (c.program W) s with ⟨e | _, w, changes⟩
  · rw [hres] at ht
    cases ht
    exact hroll w
  · rw [hres] at ht hc
    cases ht
    have hkeep := (h.run hs (by rwa [hres])).2 (by rw [hres]; exact survives_ok _)
    rwa [hres] at hkeep

/-- What the steps of a call meet, its committed changes meet. -/
theorem commits_of_keeps {c : Call ch} {s : Session} (h : Keeps Stop.fatal P I Q (c.program W)) (hs : I s)
    (hc : c.Commits W P s) : c.Commits W Q s := by
  unfold Call.Commits Call.changes at hc ⊢
  rcases hres : Recorded.run (c.program W) s with ⟨e | _, w, changes⟩
  · exact List.forall_mem_nil _
  · rw [hres] at hc
    have hkeep := (h.run hs (by rwa [hres])).1
    rwa [hres] at hkeep

/-- An invariant that every change keeps where it meets the condition, and that does not depend on how far the sequences are
or on what the session has looked up, is kept by every run of calls. -/
theorem run_keeps (h : ∀ c s s', P (c, s) → I s → c.run s = (s', .ok ()) → I s')
    (hroll : ∀ s s', I s → I (s.rollback s')) {calls : List (Call ch)} {s s' : Session} (hs : I s)
    (hcalls : Machine.EveryCall (Call.step W) (Call.Commits W P) s calls)
    (hrun : Machine.run (Call.step W) s calls = some s') : I s' := by
  have hcov : ProgramAux.Covers W (fun {α} (x : Write α) => Keeps Stop.fatal P I (fun _ => True) x) :=
    ProgramAux.Composes.covers ⟨Keeps.closed _ _ _ _⟩ fun c => keeps_change (fun _ _ _ => trivial) (h c)
  refine Machine.run_invariant ?_ hs hcalls hrun
  intro s c t hs hc ht
  exact call_keeps (hcov.call c) (fun s' => hroll s s' hs) hs hc ht

end CallAux

/-! ## Deletion of a node after its relationships -/

/-- If the change is the deletion of a node with `DETACH`, no relationship is at the node any more. -/
def DetachedFirst (e : Change × Session) : Prop :=
  match e.1 with
  | .deleteNode .detach nodeId | .deleteNode .apiDetach nodeId => ∀ edge ∈ e.2.db.edges, ¬edge.Touches nodeId
  | _ => True

namespace CallAux

/-- The relationships that a `DELETE` has deleted are gone. -/
def Gone (d : Deleted) (edges : List RelRecord) : Prop := ∀ edge ∈ edges, edge.edgeId ∉ d.edges

/-- The relationships at a node are among those that are still to be deleted. -/
def Left (nodeId : Int64) (edgeIds : List Int64) (edges : List RelRecord) : Prop :=
  ∀ edge ∈ edges, edge.Touches nodeId → edge.edgeId ∈ edgeIds

theorem Left.delete {nodeId edgeId : Int64} {edgeIds : List Int64} {edges : List RelRecord}
    (h : Left nodeId (edgeId :: edgeIds) edges) : Left nodeId edgeIds (edges.filter (·.edgeId ≠ edgeId)) := by
  intro edge hedge htouches
  obtain ⟨hmem, hne⟩ := List.mem_filter.mp hedge
  exact (List.mem_cons.mp (h edge hmem htouches)).resolve_left (of_decide_eq_true hne)

theorem edges_deleteNodeRun (via : DeletePath) (nodeId : Int64) (s : Session) :
    (Change.deleteNodeRun via nodeId s).db.edges = s.db.edges := by
  cases via with
  | api | apiDetach => exact Change.onNode_cases (P := fun t => t.db.edges = s.db.edges) rfl fun r _ => rfl
  | node | detach | path => rfl

theorem detachedFirst_of_not {c : Change} (s : Session) (hdetach : ∀ nodeId, c ≠ .deleteNode .detach nodeId)
    (hapi : ∀ nodeId, c ≠ .deleteNode .apiDetach nodeId) : DetachedFirst (c, s) := by
  unfold DetachedFirst
  split
  · rename_i nodeId hc
    exact absurd hc (hdetach nodeId)
  · rename_i nodeId hc
    exact absurd hc (hapi nodeId)
  · trivial

/-- One relationship is deleted, unless it is gone already. -/
theorem shows_deleteEdgeOnce {A B : List RelRecord → Prop} (edgeId : Int64)
    (hAB : ∀ edges, A edges → B (edges.filter (·.edgeId ≠ edgeId))) (d : Deleted) :
    Shows DetachedFirst (fun s => Gone d s.db.edges ∧ A s.db.edges) (deleteEdgeOnce W edgeId d)
      (fun d s => Gone d s.db.edges ∧ B s.db.edges) := by
  unfold deleteEdgeOnce
  split
  · rename_i hmem
    apply Shows.pure
    rintro s ⟨hgone, hA⟩
    refine ⟨hgone, ?_⟩
    have hsame : s.db.edges.filter (·.edgeId ≠ edgeId) = s.db.edges := by
      apply List.filter_eq_self.mpr
      intro edge hedge
      apply decide_eq_true
      rintro rfl
      exact hgone edge hedge hmem
    rw [← hsame]
    exact hAB _ hA
  · have hdelete : Shows DetachedFirst (fun s => Gone d s.db.edges ∧ A s.db.edges) (Write.change W (.deleteEdge edgeId))
        (fun _ s => Gone { d with edges := edgeId :: d.edges } s.db.edges ∧ B s.db.edges) := by
      apply Shows.act
      · intro s _
        exact detachedFirst_of_not s (fun _ h => by cases h) (fun _ h => by cases h)
      · rintro s s' ⟨hgone, hA⟩ happly
        cases run_of_apply happly
        refine ⟨?_, hAB _ hA⟩
        intro edge hedge hmem
        obtain ⟨hold, hne⟩ := List.mem_filter.mp hedge
        rcases List.mem_cons.mp hmem with heq | hmem
        · exact of_decide_eq_true hne heq
        · exact hgone edge hold hmem
    apply hdelete.bind
    intro _
    exact Shows.pure fun _ h => h

theorem shows_deleteEdge (edgeId : Int64) (d : Deleted) :
    Shows DetachedFirst (fun s => Gone d s.db.edges) (deleteEdgeOnce W edgeId d) (fun d s => Gone d s.db.edges) := by
  have h := shows_deleteEdgeOnce (W := W) (A := fun _ => True) (B := fun _ => True) edgeId (fun _ _ => trivial) d
  exact h.weaken (fun s hs => ⟨hs, trivial⟩) fun _ _ hs => hs.1

/-- The relationships at a node are deleted, and none is left. -/
theorem shows_deleteIncident (nodeId : Int64) (edgeIds : List Int64) (d : Deleted) :
    Shows DetachedFirst (fun s => Gone d s.db.edges ∧ Left nodeId edgeIds s.db.edges)
      (edgeIds.foldlM (fun d edgeId => deleteEdgeOnce W edgeId d) d)
      (fun d s => Gone d s.db.edges ∧ Left nodeId [] s.db.edges) := by
  apply Shows.foldlM fun edgeIds d (s : Session) => Gone d s.db.edges ∧ Left nodeId edgeIds s.db.edges
  intro edgeId edgeIds d
  exact shows_deleteEdgeOnce (A := Left nodeId (edgeId :: edgeIds)) (B := Left nodeId edgeIds) edgeId (fun _ h => h.delete) d

/-- A node is deleted, with what its code does before, when no relationship that is left touches it. -/
theorem shows_deleteNode {via : DeletePath} {nodeId : Int64} {A : List RelRecord → Prop}
    (hA : ∀ edges, A edges → (via = .detach ∨ via = .apiDetach) → ∀ edge ∈ edges, ¬edge.Touches nodeId) :
    Shows DetachedFirst (fun s => A s.db.edges) (Write.change W (.deleteNode via nodeId)) (fun _ s => A s.db.edges) := by
  apply Shows.act
  · intro s hs
    cases via with
    | detach => exact hA _ hs (.inl rfl)
    | apiDetach => exact hA _ hs (.inr rfl)
    | api | node | path => trivial
  · intro s s' hs happly
    cases run_of_apply happly
    rwa [edges_deleteNodeRun]

/-- What is read of the relationships at a node are all of them. -/
theorem shows_incidentEdgeIds (nodeId : Int64) {A : List RelRecord → Prop} :
    Shows DetachedFirst (fun s => A s.db.edges) (incidentEdgeIds W nodeId)
      (fun edgeIds s => A s.db.edges ∧ Left nodeId edgeIds s.db.edges) := by
  apply Shows.of_same (fun _ => rfl)
  rintro s t _ hA ⟨⟩
  refine ⟨hA, ?_⟩
  intro edge hedge htouches
  have hreads := W.reads s.db
  refine List.mem_dedup.mpr (List.mem_map.mpr ⟨edge, List.mem_append.mpr ?_, rfl⟩)
  exact htouches.imp (fun h => (hreads.follow_out nodeId edge).mpr ⟨hedge, h⟩)
    fun h => (hreads.follow_in nodeId edge).mpr ⟨hedge, h⟩

theorem Left.none {nodeId : Int64} {edges : List RelRecord} (h : Left nodeId [] edges) : ∀ edge ∈ edges, ¬edge.Touches nodeId :=
  fun edge hedge htouches => List.not_mem_nil (h edge hedge htouches)

theorem shows_deleteNodeOnce (detach : Bool) (nodeId : Int64) (d : Deleted) :
    Shows DetachedFirst (fun s => Gone d s.db.edges) (deleteNodeOnce W detach nodeId d) (fun d s => Gone d s.db.edges) := by
  unfold deleteNodeOnce
  split
  · exact Shows.pure fun _ h => h
  · split
    · apply (shows_incidentEdgeIds nodeId (A := Gone d)).bind
      intro edgeIds
      apply (shows_deleteIncident nodeId edgeIds d).bind
      intro d
      apply Shows.bind (shows_deleteNode (A := fun edges => Gone d edges ∧ Left nodeId [] edges) fun _ h _ => h.2.none)
      intro _
      exact Shows.pure fun _ h => h.1
    · apply Shows.bind (shows_deleteNode (A := Gone d) ?_) fun _ => Shows.pure fun _ h => h
      rintro _ _ (h | h) <;> cases h

theorem shows_deletePathNode (nodeId : Int64) (d : Deleted) :
    Shows DetachedFirst (fun s => Gone d s.db.edges) (deletePathNode W nodeId d) (fun d s => Gone d s.db.edges) := by
  unfold deletePathNode
  split
  · exact Shows.pure fun _ h => h
  · apply Shows.bind (shows_deleteNode (A := Gone d) ?_) fun _ => Shows.pure fun _ h => h
    rintro _ _ (h | h) <;> cases h

theorem shows_deleteValue (detach : Bool) (v : Value ch) (d : Deleted) :
    Shows DetachedFirst (fun s => Gone d s.db.edges) (deleteValue W detach v d) (fun d s => Gone d s.db.edges) := by
  unfold deleteValue
  split
  · exact shows_deleteNodeOnce detach _ d
  · exact Shows.pure fun _ h => h
  · exact shows_deleteEdge _ d
  · apply (Shows.loop (fun d (s : Session) => Gone d s.db.edges) shows_deleteEdge _ d).bind
    intro d
    exact Shows.loop (fun d (s : Session) => Gone d s.db.edges) shows_deletePathNode _ d
  · exact Shows.of_same (fun _ => rfl) fun _ _ _ _ h => by cases h

theorem emits_deleteRows (exprs : List Expr) (detach : Bool) (rows : List (Row ch)) (params : Params) :
    Emits DetachedFirst (deleteRows W exprs detach rows params) := by
  have hrows : Shows DetachedFirst (fun s => Gone {} s.db.edges)
      (rows.foldlM (fun d row => exprs.foldlM (fun d e => do deleteValue W detach (← eval W e row params) d) d) ({} : Deleted))
      (fun d s => Gone d s.db.edges) := by
    apply Shows.loop fun d (s : Session) => Gone d s.db.edges
    intro row d
    apply Shows.loop fun d (s : Session) => Gone d s.db.edges
    intro e d
    have heval : Shows DetachedFirst (fun s => Gone d s.db.edges) (eval W e row params) (fun _ s => Gone d s.db.edges) :=
      Shows.of_same (fun _ => rfl) fun _ _ _ h _ => h
    apply heval.bind
    intro v
    exact shows_deleteValue detach v d
  apply (Emits.closed Stop.fatal DetachedFirst).bind ((hrows.weaken (fun s _ => ?_) fun _ _ _ => trivial).emits)
  · intro _
    exact (Emits.closed Stop.fatal DetachedFirst).pure rows
  · intro edge _ hmem
    cases hmem

theorem emits_detachDeleteNode (nodeId : Int64) : Emits DetachedFirst (detachDeleteNode W nodeId) := by
  have hedges : ∀ edgeIds : List Int64, Shows DetachedFirst (fun s => Left nodeId edgeIds s.db.edges)
      (edgeIds.forM fun edgeId => Write.change W (.deleteEdge edgeId)) (fun _ s => Left nodeId [] s.db.edges) := by
    intro edgeIds
    induction edgeIds with
    | nil => exact Shows.pure fun _ h => h
    | cons edgeId edgeIds ih =>
      have hdelete : Shows DetachedFirst (fun s => Left nodeId (edgeId :: edgeIds) s.db.edges)
          (Write.change W (.deleteEdge edgeId)) (fun _ s => Left nodeId edgeIds s.db.edges) := by
        apply Shows.act
        · intro s _
          exact detachedFirst_of_not s (fun _ h => by cases h) (fun _ h => by cases h)
        · intro s s' hleft happly
          cases run_of_apply happly
          exact hleft.delete
      apply hdelete.bind
      intro _
      exact ih
  have hall : Shows DetachedFirst (fun _ => True) (detachDeleteNode W nodeId) (fun _ s => Left nodeId [] s.db.edges) := by
    apply Shows.bind (shows_incidentEdgeIds nodeId (A := fun _ => True))
    intro edgeIds
    apply Shows.bind ((hedges edgeIds).weaken (fun _ h => h.2) fun _ _ h => h)
    intro _
    exact shows_deleteNode (A := Left nodeId []) fun _ h _ => h.none
  exact (hall.weaken (fun _ h => h) fun _ _ _ => trivial).emits

theorem detachedFirst_of_creation {c : Change} (h : ProgramAux.Creation c) (s : Session) : DetachedFirst (c, s) := by
  cases h <;> exact detachedFirst_of_not s (fun _ h => by cases h) fun _ h => by cases h

theorem detachedFirst_of_single {c : Change} (h : ProgramAux.Single c) (s : Session) : DetachedFirst (c, s) := by
  cases h <;> exact detachedFirst_of_not s (fun _ h => by cases h) fun _ h => by cases h

/-- Every part of a call deletes a node with `DETACH` after its relationships. -/
theorem covers_emits_detachedFirst : ProgramAux.Covers W (fun {α} (x : Write α) => Emits DetachedFirst x) := by
  have hcreates : ProgramAux.Creates W (fun {α} (x : Write α) => Emits DetachedFirst x) :=
    ⟨⟨Emits.closed _ _⟩, fun _ hc => Emits.act (detachedFirst_of_creation hc)⟩
  exact
    { toComposes := hcreates.toComposes
      change := fun _ hc => Emits.act (detachedFirst_of_single hc)
      createRows := hcreates.createRows
      createMerged := fun pattern row params => hcreates.buffered (hcreates.createPatternInRow pattern row params)
      deleteRows := emits_deleteRows
      detachDeleteNode := emits_detachDeleteNode }

end CallAux

/-- Every deletion of a node with `DETACH` that a call commits comes after that of its relationships. -/
theorem commits_detachedFirst (s : Session) (c : Call ch) : c.Commits W DetachedFirst s :=
  CallAux.commits_of_keeps (Emits.iff_keeps.mp (CallAux.covers_emits_detachedFirst.call c)) trivial fun _ _ => trivial

end PgEddy
