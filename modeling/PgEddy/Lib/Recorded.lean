import Mathlib.Data.List.Basic
import Mathlib.Control.Basic

/-!
# Programs that change a state by recorded steps

A program reads a state, changes it by steps, and may stop with an error, which leaves the state as it then is. Every step is
recorded with the state it was taken in. What a program preserves is then a matter of its steps: a condition on programs that
is closed under the ways of putting programs together (`Closed`) holds of a program when it holds of its steps. Two such
conditions are given. `Keeps` says that a run whose recorded steps all meet a condition keeps an invariant, unless it stops with
an error of a kind that undoes it, and what its steps meet besides. `Emits` says that the recorded steps meet a condition; where
that takes an assertion about the states between two steps, `Shows` carries it.
-/

namespace Recorded

variable {ε σ η α β : Type}

/-- A program on states `σ` whose steps are recorded as `η`. -/
def Program (ε σ η α : Type) := σ × List η → Except ε α × (σ × List η)

instance : Monad (Program ε σ η) where
  pure a := fun w => (.ok a, w)
  bind x f := fun w =>
    match x w with
    | (.ok a, w') => f a w'
    | (.error e, w') => (.error e, w')

theorem id_map_run (x : Program ε σ η α) : id <$> x = x := by
  funext w
  change (match x w with | (.ok a, w') => (.ok a, w') | (.error e, w') => (.error e, w')) = x w
  rcases x w with ⟨_ | _, _⟩ <;> rfl

theorem bind_assoc_run {γ : Type} (x : Program ε σ η α) (f : α → Program ε σ η β) (g : β → Program ε σ η γ) :
    x >>= f >>= g = x >>= fun a => f a >>= g := by
  funext w
  change (match (match x w with | (.ok a, w') => f a w' | (.error e, w') => (.error e, w')) with
    | (.ok b, w') => g b w' | (.error e, w') => (.error e, w')) =
    (match x w with | (.ok a, w') => (f a >>= g) w' | (.error e, w') => (.error e, w'))
  rcases x w with ⟨_ | _, _⟩ <;> rfl

instance : LawfulMonad (Program ε σ η) :=
  LawfulMonad.mk' (Program ε σ η) id_map_run (fun _ _ => rfl) bind_assoc_run

/-- Stop with an error. -/
def stop (e : ε) : Program ε σ η α := fun w => (.error e, w)

/-- The state. -/
def get : Program ε σ η σ := fun w => (.ok w.1, w)

/-- A new state, which is not recorded. -/
def set (s : σ) : Program ε σ η Unit := fun w => (.ok (), (s, w.2))

/-- A result that was computed without changing anything. -/
def lift (r : Except ε α) : Program ε σ η α := fun w => (r, w)

/-- A step, recorded if it is taken. A step that fails may leave traces in the state. -/
def act (apply : σ → σ × Except ε Unit) (event : σ → η) : Program ε σ η Unit := fun w =>
  match apply w.1 with
  | (s, .ok _) => (.ok (), (s, w.2 ++ [event w.1]))
  | (s, .error e) => (.error e, (s, w.2))

/-- Run a program and go on after an error, unless it is a fatal one. -/
def swallow (fatal : ε → Bool) (x : Program ε σ η α) : Program ε σ η Unit := fun w =>
  match x w with
  | (.ok _, w') => (.ok (), w')
  | (.error e, w') => if fatal e then (.error e, w') else (.ok (), w')

/-- Run a program, and another one before passing on an error, unless it is a fatal one. -/
def onError (fatal : ε → Bool) (x : Program ε σ η α) (handler : Program ε σ η Unit) : Program ε σ η α := fun w =>
  match x w with
  | (.ok a, w') => (.ok a, w')
  | (.error e, w') => if fatal e then (.error e, w') else (handler >>= fun _ => stop e) w'

theorem bind_ok {x : Program ε σ η α} {f : α → Program ε σ η β} {w w' : σ × List η} {a : α} (h : x w = (.ok a, w')) :
    (x >>= f) w = f a w' := by
  change (match x w with | (.ok a, w') => f a w' | (.error e, w') => (.error e, w')) = _
  rw [h]

theorem bind_error {x : Program ε σ η α} {f : α → Program ε σ η β} {w w' : σ × List η} {e : ε} (h : x w = (.error e, w')) :
    (x >>= f) w = (.error e, w') := by
  change (match x w with | (.ok a, w') => f a w' | (.error e, w') => (.error e, w')) = _
  rw [h]

theorem bind_eq_ok {x : Program ε σ η α} {f : α → Program ε σ η β} {w w' : σ × List η} {b : β} (h : (x >>= f) w = (.ok b, w')) :
    ∃ a w₁, x w = (.ok a, w₁) ∧ f a w₁ = (.ok b, w') := by
  rcases hx : x w with ⟨e | a, w₁⟩
  · rw [bind_error hx] at h
    cases h
  · rw [bind_ok hx] at h
    exact ⟨a, w₁, rfl, h⟩

/-! ## Conditions on programs -/

/-- A condition on programs that holds of a program when it holds of its parts. -/
structure Closed (fatal : ε → Bool) (C : ∀ {α : Type}, Program ε σ η α → Prop) : Prop where
  pure : ∀ {α : Type} (a : α), C (Pure.pure a)
  bind : ∀ {α β : Type} {x : Program ε σ η α} {f : α → Program ε σ η β}, C x → (∀ a, C (f a)) → C (x >>= f)
  stop : ∀ {α : Type} (e : ε), C (Recorded.stop e : Program ε σ η α)
  get : C (Recorded.get : Program ε σ η σ)
  swallow : ∀ {α : Type} {x : Program ε σ η α}, C x → C (Recorded.swallow fatal x)
  onError : ∀ {α : Type} {x : Program ε σ η α} {handler : Program ε σ η Unit}, C x → C handler →
    C (Recorded.onError fatal x handler)

namespace Closed

variable {fatal : ε → Bool} {C : ∀ {α : Type}, Program ε σ η α → Prop}

theorem lift (h : Closed fatal C) (r : Except ε α) : C (Recorded.lift r : Program ε σ η α) := by
  cases r with
  | ok a => exact h.pure a
  | error e => exact h.stop e

theorem mapM (h : Closed fatal C) {f : α → Program ε σ η β} (hf : ∀ a, C (f a)) (l : List α) : C (l.mapM f) := by
  induction l with
  | nil =>
    rw [List.mapM_nil]
    exact h.pure []
  | cons a l ih =>
    rw [List.mapM_cons]
    apply h.bind (hf a)
    intro b
    apply h.bind ih
    intro bs
    exact h.pure (b :: bs)

theorem foldlM (h : Closed fatal C) {f : β → α → Program ε σ η β} (hf : ∀ b a, C (f b a)) (b : β) (l : List α) :
    C (l.foldlM f b) := by
  induction l generalizing b with
  | nil => exact h.pure b
  | cons a l ih =>
    apply h.bind (hf b a)
    intro b'
    exact ih b'

end Closed

/-- A program that leaves the state and the record as they are. -/
def Still (x : Program ε σ η α) : Prop := ∀ w, (x w).2 = w

theorem still_closed (fatal : ε → Bool) : Closed fatal (fun {α} (x : Program ε σ η α) => Still x) where
  pure a := fun w => rfl
  bind := by
    intro α β x f hx hf w
    rcases hrun : x w with ⟨e | a, w'⟩
    · rw [bind_error hrun]
      exact (hrun ▸ hx w : (Except.error e, w').2 = w)
    · rw [bind_ok hrun]
      exact (hf a w').trans (hrun ▸ hx w : (Except.ok a, w').2 = w)
  stop e := fun w => rfl
  get := fun w => rfl
  swallow := by
    intro α x hx w
    have hw := hx w
    unfold Recorded.swallow
    split
    · rename_i h
      rwa [h] at hw
    · rename_i h
      rw [h] at hw
      split <;> exact hw
  onError := by
    intro α x handler hx hhandler w
    have hw := hx w
    unfold Recorded.onError
    split
    · rename_i h
      rwa [h] at hw
    · rename_i e w' h
      rw [h] at hw
      split
      · exact hw
      · have hw' := hhandler w'
        rcases hrun : handler w' with ⟨f | a, w''⟩
        · rw [bind_error hrun]
          rw [hrun] at hw'
          exact hw'.trans hw
        · rw [bind_ok hrun]
          rw [hrun] at hw'
          exact hw'.trans hw

/-! ## Invariants -/

/-- The run ends, if in an error, not in a fatal one. -/
def Survives (fatal : ε → Bool) (r : Except ε α) : Prop := ∀ e, r = .error e → fatal e = false

/-- From a state of the invariant `I` a run whose recorded steps all meet `P` takes only steps that meet `Q`, and keeps `I`
unless it ends in a fatal error. -/
def Keeps (fatal : ε → Bool) (P : η → Prop) (I : σ → Prop) (Q : η → Prop) {α : Type} (x : Program ε σ η α) : Prop :=
  ∀ s t, ∃ new, (x (s, t)).2.2 = t ++ new ∧
    (I s → (∀ e ∈ new, P e) → (∀ e ∈ new, Q e) ∧ (Survives fatal (x (s, t)).1 → I (x (s, t)).2.1))

variable {fatal : ε → Bool} {P Q : η → Prop} {I : σ → Prop}

theorem survives_ok (a : α) : Survives fatal (.ok a : Except ε α) := by
  intro e h
  cases h

theorem survives_error {e : ε} (h : fatal e = false) : Survives fatal (.error e : Except ε α) := by
  intro e' he'
  cases he'
  exact h

namespace Keeps

theorem of_same {x : Program ε σ η α} (h : ∀ w, (x w).2 = w) : Keeps fatal P I Q x := by
  intro s t
  refine ⟨[], ?_, ?_⟩
  · rw [h, List.append_nil]
  · intro hs _
    refine ⟨List.forall_mem_nil _, fun _ => ?_⟩
    rwa [h]

/-- One part after another: what the first one keeps is where the second one starts. -/
theorem append {s : σ} {new more : List η} {J K : Prop} (hfst : I s → (∀ e ∈ new, P e) → (∀ e ∈ new, Q e) ∧ J)
    (hsnd : J → (∀ e ∈ more, P e) → (∀ e ∈ more, Q e) ∧ K) :
    I s → (∀ e ∈ new ++ more, P e) → (∀ e ∈ new ++ more, Q e) ∧ K := by
  intro hs hP
  rw [List.forall_mem_append] at hP ⊢
  obtain ⟨hnew, hJ⟩ := hfst hs hP.1
  obtain ⟨hmore, hK⟩ := hsnd hJ hP.2
  exact ⟨⟨hnew, hmore⟩, hK⟩

theorem bind {x : Program ε σ η α} {f : α → Program ε σ η β} (hx : Keeps fatal P I Q x) (hf : ∀ a, Keeps fatal P I Q (f a)) :
    Keeps fatal P I Q (x >>= f) := by
  intro s t
  obtain ⟨new, htrace, hkeep⟩ := hx s t
  change ∃ new, (match x (s, t) with | (.ok a, w') => f a w' | (.error e, w') => (.error e, w')).2.2 = t ++ new ∧
    (_ → _ → _ ∧ (Survives fatal (match x (s, t) with | (.ok a, w') => f a w' | (.error e, w') => (.error e, w')).1 →
      I (match x (s, t) with | (.ok a, w') => f a w' | (.error e, w') => (.error e, w')).2.1))
  rcases hres : x (s, t) with ⟨e | a, s', t'⟩
  · rw [hres] at htrace hkeep
    refine ⟨new, htrace, fun hs hP => ?_⟩
    obtain ⟨hQ, hend⟩ := hkeep hs hP
    exact ⟨hQ, fun h => hend (survives_error (h e rfl))⟩
  · rw [hres] at htrace hkeep
    obtain ⟨more, htrace', hkeep'⟩ := hf a s' t'
    simp only at htrace ⊢
    refine ⟨new ++ more, ?_, append (fun hs hP => (hkeep hs hP).imp_right fun h => h (survives_ok a)) hkeep'⟩
    rw [htrace', htrace, List.append_assoc]

/-- A step keeps the invariant when it does where it is taken, and fails only with fatal errors. -/
theorem act {apply : σ → σ × Except ε Unit} {event : σ → η} (hQ : ∀ s, I s → P (event s) → Q (event s))
    (h : ∀ s s', P (event s) → I s → apply s = (s', .ok ()) → I s')
    (hfail : ∀ s s' e, apply s = (s', .error e) → fatal e = true) : Keeps fatal P I Q (Recorded.act apply event) := by
  intro s t
  unfold Recorded.act
  rcases happly : apply s with ⟨s', e | _⟩
  · refine ⟨[], (List.append_nil t).symm, fun _ _ => ⟨List.forall_mem_nil _, fun hend => ?_⟩⟩
    have hnot := hend e rfl
    rw [hfail s s' e happly] at hnot
    cases hnot
  · refine ⟨[event s], rfl, fun hs hP => ?_⟩
    rw [List.forall_mem_singleton] at hP ⊢
    exact ⟨hQ s hs hP, fun _ => h s s' hP hs happly⟩

theorem swallow {x : Program ε σ η α} (hx : Keeps fatal P I Q x) : Keeps fatal P I Q (Recorded.swallow fatal x) := by
  intro s t
  obtain ⟨new, htrace, hkeep⟩ := hx s t
  unfold Recorded.swallow
  rcases hres : x (s, t) with ⟨e | a, s', t'⟩
  · rw [hres] at htrace hkeep
    simp only at htrace hkeep ⊢
    by_cases hfatal : fatal e = true
    · rw [if_pos hfatal]
      refine ⟨new, htrace, fun hs hP => ⟨(hkeep hs hP).1, fun hend => ?_⟩⟩
      have hnot := hend e rfl
      rw [hfatal] at hnot
      cases hnot
    · rw [if_neg hfatal]
      exact ⟨new, htrace, fun hs hP => (hkeep hs hP).imp_right fun h _ => h (survives_error (Bool.eq_false_iff.mpr hfatal))⟩
  · rw [hres] at htrace hkeep
    exact ⟨new, htrace, fun hs hP => (hkeep hs hP).imp_right fun h _ => h (survives_ok a)⟩

theorem onError {x : Program ε σ η α} {handler : Program ε σ η Unit} (hx : Keeps fatal P I Q x)
    (hh : Keeps fatal P I Q handler) : Keeps fatal P I Q (Recorded.onError fatal x handler) := by
  intro s t
  obtain ⟨new, htrace, hkeep⟩ := hx s t
  unfold Recorded.onError
  rcases hres : x (s, t) with ⟨e | a, s', t'⟩
  · rw [hres] at htrace hkeep
    simp only at htrace hkeep ⊢
    by_cases hfatal : fatal e = true
    · rw [if_pos hfatal]
      refine ⟨new, htrace, fun hs hP => (hkeep hs hP).imp_right fun h hend => ?_⟩
      have hnot := hend e rfl
      rw [hfatal] at hnot
      cases hnot
    · rw [if_neg hfatal]
      obtain ⟨more, htrace', hkeep'⟩ := (hh.bind fun _ => of_same (x := (Recorded.stop e : Program ε σ η α)) fun _ => rfl) s' t'
      have herr := survives_error (α := α) (Bool.eq_false_iff.mpr hfatal)
      refine ⟨new ++ more, ?_, append (fun hs hP => (hkeep hs hP).imp_right fun h => h herr) hkeep'⟩
      rw [htrace', htrace, List.append_assoc]
  · rw [hres] at htrace hkeep
    exact ⟨new, htrace, fun hs hP => (hkeep hs hP).imp_right fun h _ => h (survives_ok a)⟩

/-- What is kept by every step is kept by programs put together from steps. -/
theorem closed (fatal : ε → Bool) (P : η → Prop) (I : σ → Prop) (Q : η → Prop) :
    Closed fatal (fun {α} (x : Program ε σ η α) => Keeps fatal P I Q x) where
  pure _ := of_same fun _ => rfl
  bind := bind
  stop _ := of_same fun _ => rfl
  get := of_same fun _ => rfl
  swallow := swallow
  onError := onError

end Keeps

/-- The recorded steps of a run meet `Q`. -/
def Emits (Q : η → Prop) {α : Type} (x : Program ε σ η α) : Prop :=
  ∀ s t, ∃ new, (x (s, t)).2.2 = t ++ new ∧ ∀ e ∈ new, Q e

namespace Emits

theorem iff_keeps {x : Program ε σ η α} : Emits Q x ↔ Keeps fatal (fun _ => True) (fun _ => True) Q x := by
  constructor
  · intro h s t
    obtain ⟨new, htrace, hnew⟩ := h s t
    exact ⟨new, htrace, fun _ _ => ⟨hnew, fun _ => trivial⟩⟩
  · intro h s t
    obtain ⟨new, htrace, hnew⟩ := h s t
    exact ⟨new, htrace, (hnew trivial fun _ _ => trivial).1⟩

theorem act {apply : σ → σ × Except ε Unit} {event : σ → η} (h : ∀ s, Q (event s)) :
    Emits Q (Recorded.act apply event) := by
  intro s t
  unfold Recorded.act
  rcases apply s with ⟨s', e | _⟩
  · exact ⟨[], (List.append_nil t).symm, List.forall_mem_nil _⟩
  · refine ⟨[event s], rfl, ?_⟩
    rw [List.forall_mem_singleton]
    exact h s

theorem closed (fatal : ε → Bool) (Q : η → Prop) : Closed fatal (fun {α} (x : Program ε σ η α) => Emits Q x) := by
  have h := Keeps.closed fatal (fun _ => True) (fun _ : σ => True) Q
  exact
    { pure := fun a => iff_keeps.mpr (h.pure a)
      bind := fun hx hf => iff_keeps.mpr (h.bind (iff_keeps.mp hx) fun a => iff_keeps.mp (hf a))
      stop := fun e => iff_keeps.mpr (h.stop e)
      get := iff_keeps.mpr h.get
      swallow := fun hx => iff_keeps.mpr (h.swallow (iff_keeps.mp hx))
      onError := fun hx hh => iff_keeps.mpr (h.onError (iff_keeps.mp hx) (iff_keeps.mp hh)) }

end Emits

/-- The state in which a run ends, unless in a fatal error, meets `I`, wherever the run starts. -/
def Ends (fatal : ε → Bool) (I : σ → Prop) {α : Type} (x : Program ε σ η α) : Prop :=
  ∀ w, Survives fatal (x w).1 → I (x w).2.1

namespace Ends

/-- A step that makes `I` true, and fails only with fatal errors. -/
theorem act {apply : σ → σ × Except ε Unit} {event : σ → η} (h : ∀ s s', apply s = (s', .ok ()) → I s')
    (hfail : ∀ s s' e, apply s = (s', .error e) → fatal e = true) : Ends fatal I (Recorded.act apply event) := by
  intro w hend
  unfold Recorded.act at hend ⊢
  rcases happly : apply w.1 with ⟨s', e | _⟩
  · rw [happly] at hend
    have hnot := hend e rfl
    rw [hfail w.1 s' e happly] at hnot
    cases hnot
  · exact h w.1 s' happly

/-- Whatever the result is made to be. -/
theorem then_lift {x : Program ε σ η β} (h : Ends fatal I x) (r : Except ε α) :
    Ends fatal I (x >>= fun _ => (lift r : Program ε σ η α)) := by
  intro w hend
  rcases hres : x w with ⟨e | b, w'⟩
  · have hI := h w
    rw [bind_error hres] at hend ⊢
    rw [hres] at hI
    exact hI (survives_error (hend e rfl))
  · have hI := h w (by rw [hres]; exact survives_ok b)
    rw [bind_ok hres]
    rwa [hres] at hI

/-- A program that is followed by `after`, or by `handler` if it fails, ends where these end. -/
theorem onError_then {x : Program ε σ η α} {handler after : Program ε σ η Unit} (hhandler : Ends fatal I handler)
    (hafter : Ends fatal I after) : Ends fatal I (do let a ← onError fatal x handler; after; return a) := by
  intro w hend
  rcases hres : x w with ⟨e | a, w'⟩
  · by_cases hfatal : fatal e = true
    · have herr : onError fatal x handler w = (.error e, w') := by simp only [onError, hres, if_pos hfatal]
      rw [bind_error herr] at hend
      have hnot := hend e rfl
      rw [hfatal] at hnot
      cases hnot
    · have herr : onError fatal x handler w = (handler >>= fun _ => (lift (.error e) : Program ε σ η α)) w' := by
        simp only [onError, hres, if_neg hfatal]
        rfl
      have hI := then_lift hhandler (.error e : Except ε α) w'
      rw [← herr] at hI
      rcases hres' : onError fatal x handler w with ⟨e' | a, w''⟩
      · rw [bind_error hres'] at hend ⊢
        rw [hres'] at hI
        exact hI (survives_error (hend e' rfl))
      · rw [bind_ok hres'] at hend ⊢
        exact then_lift hafter (.ok a) w'' hend
  · have hok : onError fatal x handler w = (.ok a, w') := by simp only [onError, hres]
    rw [bind_ok hok] at hend ⊢
    exact then_lift hafter (.ok a) w' hend

end Ends

/-- A run whose steps meet `Q`, and that ends in `I` wherever it starts. -/
theorem Emits.keeps {x : Program ε σ η α} (h : Emits Q x) (hend : Ends fatal I x) : Keeps fatal P I Q x := by
  intro s t
  obtain ⟨new, htrace, hnew⟩ := h s t
  exact ⟨new, htrace, fun _ _ => ⟨hnew, hend (s, t)⟩⟩

/-! ## Assertions between steps -/

/-- From a state where `pre` holds the recorded steps meet `Q`, and `post` holds of a result and the state it comes in. -/
def Shows (Q : η → Prop) (pre : σ → Prop) {α : Type} (x : Program ε σ η α) (post : α → σ → Prop) : Prop :=
  ∀ s t, pre s → ∃ new, (x (s, t)).2.2 = t ++ new ∧ (∀ e ∈ new, Q e) ∧
    ∀ a, (x (s, t)).1 = .ok a → post a (x (s, t)).2.1

namespace Shows

variable {pre : σ → Prop} {post : α → σ → Prop}

theorem emits {x : Program ε σ η α} (h : Shows Q (fun _ => True) x post) : Emits Q x := by
  intro s t
  obtain ⟨new, htrace, hnew, -⟩ := h s t trivial
  exact ⟨new, htrace, hnew⟩

theorem pure {a : α} (h : ∀ s, pre s → post a s) : Shows Q pre (Pure.pure a : Program ε σ η α) post := by
  intro s t hs
  refine ⟨[], (List.append_nil t).symm, List.forall_mem_nil _, ?_⟩
  intro b hb
  cases hb
  exact h s hs

theorem bind {γ : β → σ → Prop} {x : Program ε σ η α} {f : α → Program ε σ η β} (hx : Shows Q pre x post)
    (hf : ∀ a, Shows Q (post a) (f a) γ) : Shows Q pre (x >>= f) γ := by
  intro s t hs
  obtain ⟨new, htrace, hnew, hpost⟩ := hx s t hs
  change ∃ new, (match x (s, t) with | (.ok a, w') => f a w' | (.error e, w') => (.error e, w')).2.2 = t ++ new ∧ _ ∧
    ∀ b, (match x (s, t) with | (.ok a, w') => f a w' | (.error e, w') => (.error e, w')).1 = .ok b →
      γ b (match x (s, t) with | (.ok a, w') => f a w' | (.error e, w') => (.error e, w')).2.1
  rcases hres : x (s, t) with ⟨e | a, s', t'⟩
  · rw [hres] at htrace
    refine ⟨new, htrace, hnew, ?_⟩
    intro b hb
    cases hb
  · rw [hres] at htrace hpost
    obtain ⟨more, htrace', hmore, hpost'⟩ := hf a s' t' (hpost a rfl)
    simp only at htrace ⊢
    refine ⟨new ++ more, ?_, ?_, hpost'⟩
    · rw [htrace', htrace, List.append_assoc]
    · intro e he
      exact (List.mem_append.mp he).elim (hnew e) (hmore e)

/-- A program that changes nothing. -/
theorem of_same {x : Program ε σ η α} (h : ∀ w, (x w).2 = w) (hpost : ∀ s t a, pre s → (x (s, t)).1 = .ok a → post a s) :
    Shows Q pre x post := by
  intro s t hs
  refine ⟨[], by rw [h, List.append_nil], List.forall_mem_nil _, ?_⟩
  intro a ha
  rw [h]
  exact hpost s t a hs ha

theorem act {apply : σ → σ × Except ε Unit} {event : σ → η} {post : Unit → σ → Prop} (hQ : ∀ s, pre s → Q (event s))
    (hpost : ∀ s s', pre s → apply s = (s', .ok ()) → post () s') : Shows Q pre (Recorded.act apply event) post := by
  intro s t hs
  unfold Recorded.act
  rcases happly : apply s with ⟨s', e | _⟩
  · refine ⟨[], (List.append_nil t).symm, List.forall_mem_nil _, ?_⟩
    intro a ha
    cases ha
  · refine ⟨[event s], rfl, fun e he => List.mem_singleton.mp he ▸ hQ s hs, ?_⟩
    intro a _
    exact hpost s s' hs happly

/-- A loop over a list keeps an assertion about the items that are left. -/
theorem foldlM {f : β → α → Program ε σ η β} (inv : List α → β → σ → Prop)
    (hf : ∀ a l b, Shows Q (inv (a :: l) b) (f b a) (inv l)) (l : List α) (b : β) :
    Shows Q (inv l b) (l.foldlM f b) (inv []) := by
  induction l generalizing b with
  | nil => exact pure fun _ h => h
  | cons a l ih =>
    apply (hf a l b).bind
    intro b'
    exact ih b'

/-- A loop over a list keeps an assertion that does not depend on the items. -/
theorem loop {f : β → α → Program ε σ η β} (inv : β → σ → Prop) (hf : ∀ a b, Shows Q (inv b) (f b a) inv) (l : List α)
    (b : β) : Shows Q (inv b) (l.foldlM f b) inv :=
  foldlM (fun _ => inv) (fun a _ b => hf a b) l b

theorem weaken {pre' : σ → Prop} {post' : α → σ → Prop} {x : Program ε σ η α} (h : Shows Q pre x post)
    (hpre : ∀ s, pre' s → pre s) (hpost : ∀ a s, post a s → post' a s) : Shows Q pre' x post' := by
  intro s t hs
  obtain ⟨new, htrace, hnew, hp⟩ := h s t (hpre s hs)
  exact ⟨new, htrace, hnew, fun a ha => hpost a _ (hp a ha)⟩

end Shows

/-! ## Runs from a state -/

/-- A run from a state with nothing recorded yet. -/
def run (x : Program ε σ η α) (s : σ) : Except ε α × σ × List η := x (s, [])

theorem Keeps.run {x : Program ε σ η α} (h : Keeps fatal P I Q x) {s : σ} (hs : I s) (hP : ∀ e ∈ (run x s).2.2, P e) :
    (∀ e ∈ (run x s).2.2, Q e) ∧ (Survives fatal (run x s).1 → I (run x s).2.1) := by
  obtain ⟨new, htrace, hkeep⟩ := h s []
  rw [List.nil_append] at htrace
  unfold Recorded.run at hP ⊢
  rw [htrace] at hP ⊢
  exact hkeep hs hP

end Recorded
