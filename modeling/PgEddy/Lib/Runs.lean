import Mathlib.Data.Option.Basic

/-!
# Runs of a state machine

A machine takes a state and a call to the next state, or has no next state. Here: the state a list of calls leaves, properties
of every state a run visits and of every call it makes, and the rules that derive the ones from what one step preserves.
-/

namespace Machine

variable {σ ο : Type} (step : σ → ο → Option σ)

/-- The state a list of calls leaves, when every call has a next state. -/
def run : σ → List ο → Option σ
  | s, [] => some s
  | s, o :: os => (step s o).bind (fun t => run t os)

/-- `P` holds in every state a run visits, the first one included. -/
def EveryState (P : σ → Prop) : σ → List ο → Prop
  | s, [] => P s
  | s, o :: os => P s ∧ ∀ t, step s o = some t → EveryState P t os

/-- `C` holds of every call a run makes and of the state it is made in. -/
def EveryCall (C : σ → ο → Prop) : σ → List ο → Prop
  | _, [] => True
  | s, o :: os => ∀ t, step s o = some t → C s o ∧ EveryCall C t os

/-- A condition that can be tested on calls can be tested on a run. -/
instance EveryCall.decidable {C : σ → ο → Prop} [∀ s o, Decidable (C s o)] :
    ∀ (s : σ) (os : List ο), Decidable (EveryCall step C s os)
  | _, [] => .isTrue trivial
  | s, o :: os =>
    match h : step s o with
    | none => .isTrue (fun t ht => by simp [h] at ht)
    | some t =>
      have := EveryCall.decidable (C := C) t os
      decidable_of_iff (C s o ∧ EveryCall step C t os)
        ⟨fun hc u hu => by cases h.symm.trans hu; exact hc, fun hc => hc t h⟩

variable {step}

@[simp] theorem run_nil (s : σ) : run step s [] = some s := rfl

theorem run_cons {s u : σ} {o : ο} {os : List ο} :
    run step s (o :: os) = some u ↔ ∃ t, step s o = some t ∧ run step t os = some u := by
  simp [run, Option.bind_eq_some_iff]

theorem run_append (os os' : List ο) (s : σ) :
    run step s (os ++ os') = (run step s os).bind (fun t => run step t os') := by
  induction os generalizing s with
  | nil => rfl
  | cons o os ih =>
    simp only [List.cons_append, run, Option.bind_assoc]
    exact congrArg _ (funext ih)

theorem run_snoc {s u : σ} {o : ο} {os : List ο} :
    run step s (os ++ [o]) = some u ↔ ∃ t, run step s os = some t ∧ step t o = some u := by
  simp [run_append, run, Option.bind_eq_some_iff]

/-- A condition on calls that follows from another one. -/
theorem EveryCall.mono {C D : σ → ο → Prop} (h : ∀ s o, C s o → D s o) :
    ∀ {s : σ} {os : List ο}, EveryCall step C s os → EveryCall step D s os
  | _, [], _ => trivial
  | _, _ :: _, hc => fun t ht => ⟨h _ _ (hc t ht).1, EveryCall.mono h (hc t ht).2⟩

/-- A condition on the calls alone. -/
theorem EveryCall.of_forall {D : ο → Prop} :
    ∀ {s : σ} {os : List ο}, (∀ o ∈ os, D o) → EveryCall step (fun _ o => D o) s os
  | _, [], _ => trivial
  | _, _ :: _, h => fun _ _ => ⟨h _ List.mem_cons_self, EveryCall.of_forall fun o ho => h o (List.mem_cons_of_mem _ ho)⟩

theorem EveryCall.and {C D : σ → ο → Prop} :
    ∀ {s : σ} {os : List ο}, EveryCall step C s os → EveryCall step D s os → EveryCall step (fun s o => C s o ∧ D s o) s os
  | _, [], _, _ => trivial
  | _, _ :: _, hc, hd => fun t ht => ⟨⟨(hc t ht).1, (hd t ht).1⟩, EveryCall.and (hc t ht).2 (hd t ht).2⟩

/-- What an invariant gives about each call holds of every call of a run that keeps the invariant. -/
theorem EveryCall.of_invariant {I : σ → Prop} {C D : σ → ο → Prop}
    (hinv : ∀ s o t, I s → C s o → step s o = some t → I t) (hcall : ∀ s o, I s → C s o → D s o) :
    ∀ {s : σ} {os : List ο}, I s → EveryCall step C s os → EveryCall step D s os
  | _, [], _, _ => trivial
  | _, _ :: _, hi, hc => fun t ht =>
    ⟨hcall _ _ hi (hc t ht).1, EveryCall.of_invariant hinv hcall (hinv _ _ _ hi (hc t ht).1 ht) (hc t ht).2⟩

theorem everyCall_append {C : σ → ο → Prop} {os os' : List ο} {s t : σ} (h : EveryCall step C s (os ++ os'))
    (hr : run step s os = some t) : EveryCall step C s os ∧ EveryCall step C t os' := by
  induction os generalizing s with
  | nil => cases hr; exact ⟨trivial, h⟩
  | cons o os ih =>
    obtain ⟨u, hu, hur⟩ := run_cons.mp hr
    obtain ⟨hc, hrest⟩ := h u hu
    obtain ⟨h1, h2⟩ := ih hrest hur
    refine ⟨fun v hv => ?_, h2⟩
    cases hu.symm.trans hv
    exact ⟨hc, h1⟩

theorem EveryCall.append {C : σ → ο → Prop} {os os' : List ο} {s t : σ} (h : EveryCall step C s os)
    (hr : run step s os = some t) (h' : EveryCall step C t os') : EveryCall step C s (os ++ os') := by
  induction os generalizing s with
  | nil => cases hr; exact h'
  | cons o os ih =>
    obtain ⟨u, hu, hur⟩ := run_cons.mp hr
    intro v hv
    cases hu.symm.trans hv
    exact ⟨(h u hu).1, ih (h u hu).2 hur⟩

/-- The invariant rule: what holds at the start and is kept by every call the condition allows holds at the end of the run. -/
theorem run_invariant {I : σ → Prop} {C : σ → ο → Prop}
    (hstep : ∀ s o t, I s → C s o → step s o = some t → I t) :
    ∀ {os : List ο} {s t : σ}, I s → EveryCall step C s os → run step s os = some t → I t
  | [], _, _, hs, _, hr => by cases hr; exact hs
  | o :: os, s, t, hs, hc, hr => by
    obtain ⟨u, hu, hur⟩ := run_cons.mp hr
    exact run_invariant hstep (hstep s o u hs (hc u hu).1 hu) (hc u hu).2 hur

/-- The rule for total runs: when from every state of the invariant the calls have a next state, a run has an end. -/
theorem run_total {I : σ → Prop} {C : σ → ο → Prop} {D : ο → Prop} (hnext : ∀ s o, I s → D o → ∃ t, step s o = some t)
    (hstep : ∀ s o t, I s → D o → C s o → step s o = some t → I t) :
    ∀ {os : List ο} {s : σ}, I s → (∀ o ∈ os, D o) → EveryCall step C s os → ∃ t, run step s os = some t ∧ I t
  | [], s, hs, _, _ => ⟨s, rfl, hs⟩
  | o :: os, s, hs, hd, hc => by
    obtain ⟨u, hu⟩ := hnext s o hs (hd o List.mem_cons_self)
    obtain ⟨hco, hrest⟩ := hc u hu
    obtain ⟨t, ht, hit⟩ := run_total hnext hstep (hstep s o u hs (hd o List.mem_cons_self) hco hu)
      (fun o ho => hd o (List.mem_cons_of_mem _ ho)) hrest
    exact ⟨t, run_cons.mpr ⟨u, hu, ht⟩, hit⟩

/-- A property of every state, read at a state the run reaches. -/
theorem EveryState.of_run {P : σ → Prop} :
    ∀ {pre post : List ο} {s t : σ}, EveryState step P s (pre ++ post) → run step s pre = some t → P t
  | [], [], _, _, h, hr => by cases hr; exact h
  | [], _ :: _, _, _, h, hr => by cases hr; exact h.1
  | _ :: _, _, _, _, h, hr => by
    obtain ⟨u, hu, hur⟩ := run_cons.mp hr
    exact EveryState.of_run (h.2 u hu) hur

/-- A property that fails where a run ends does not hold in every state of it. -/
theorem not_everyState_of_run {P : σ → Prop} [DecidablePred P] {os : List ο} {s : σ}
    (h : (run step s os).any (fun t => !decide (P t)) = true) : ¬EveryState step P s os := by
  obtain ⟨t, ht, hp⟩ := (Option.any_eq_true _ _).mp h
  intro he
  have hpt : P t := EveryState.of_run (by rwa [List.append_nil]) ht
  simp [hpt] at hp

/-- The rule for exact conditions: when, from a state where the invariant and the property hold, the property holds after a
call exactly if the call meets the condition, it holds in every state of a run exactly if every call of the run does. -/
theorem everyState_iff_everyCall {I P : σ → Prop} {C D : σ → ο → Prop}
    (hinv : ∀ s o t, I s → D s o → step s o = some t → I t)
    (hexact : ∀ s o t, I s → P s → D s o → step s o = some t → (P t ↔ C s o)) :
    ∀ {os : List ο} {s : σ}, I s → P s → EveryCall step D s os → (EveryState step P s os ↔ EveryCall step C s os)
  | [], _, _, hp, _ => ⟨fun _ => trivial, fun _ => hp⟩
  | o :: os, s, hi, hp, hd => by
    constructor
    · rintro ⟨-, h⟩ t ht
      have hpt : P t := by
        cases os with
        | nil => exact h t ht
        | cons _ _ => exact (h t ht).1
      exact ⟨(hexact s o t hi hp (hd t ht).1 ht).mp hpt,
        (everyState_iff_everyCall hinv hexact (hinv s o t hi (hd t ht).1 ht) hpt (hd t ht).2).mp (h t ht)⟩
    · intro h
      refine ⟨hp, fun t ht => ?_⟩
      have hpt : P t := (hexact s o t hi hp (hd t ht).1 ht).mpr (h t ht).1
      exact (everyState_iff_everyCall hinv hexact (hinv s o t hi (hd t ht).1 ht) hpt (hd t ht).2).mpr (h t ht).2

end Machine
