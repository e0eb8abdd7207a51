import Mathlib.Data.List.Basic

/-!
# Recursive descent

A parser takes tokens from the front of a list. `loop` is the loop of such a parser: it looks at what it has so far and at the
tokens that are left, and stops or takes another round.
-/

namespace Descent

variable {τ ε α β : Type}

/-- A parser of tokens `τ`: a result and the tokens that are left, or an error. -/
abbrev Parser (τ ε : Type) := StateT (List τ) (Except ε)

/-- Rounds until none is due. A loop that has used up its rounds fails. -/
def loop (out : ε) (round : α → List τ → Option (Parser τ ε α)) : Nat → α → Parser τ ε α
  | 0, a => fun ts => if (round a ts).isNone then .ok (a, ts) else .error out
  | k + 1, a => fun ts =>
    match round a ts with
    | none => .ok (a, ts)
    | some p => (p >>= loop out round k) ts

/-! ## Sequences -/

theorem bind_ok {p : Parser τ ε α} {q : α → Parser τ ε β} {ts ts' : List τ} {a : α} (h : p ts = .ok (a, ts')) :
    (p >>= q) ts = q a ts' := by
  change (p ts >>= fun x => q x.1 x.2) = _
  rw [h]
  rfl

theorem bind_error {p : Parser τ ε α} {q : α → Parser τ ε β} {ts : List τ} {e : ε} (h : p ts = .error e) :
    (p >>= q) ts = .error e := by
  change (p ts >>= fun x => q x.1 x.2) = _
  rw [h]
  rfl

/-- A sequence succeeds if its parts do, one after the other. -/
theorem bind_eq_ok {p : Parser τ ε α} {q : α → Parser τ ε β} {ts : List τ} {out : β × List τ} :
    (p >>= q) ts = .ok out ↔ ∃ a ts', p ts = .ok (a, ts') ∧ q a ts' = .ok out := by
  constructor
  · intro h
    cases hp : p ts with
    | error e =>
      rw [bind_error hp] at h
      cases h
    | ok r => exact ⟨r.1, r.2, rfl, by rw [bind_ok hp] at h; exact h⟩
  · rintro ⟨a, ts', hp, hq⟩
    rw [bind_ok hp, hq]

@[simp] theorem pure_apply (a : α) (ts : List τ) : (pure a : Parser τ ε α) ts = .ok (a, ts) := rfl

/-! ## Loops -/

variable {out : ε} {round : α → List τ → Option (Parser τ ε α)} {k : Nat} {a b : α} {ts ts' : List τ}

theorem loop_zero : loop out round 0 a ts = if (round a ts).isNone then .ok (a, ts) else .error out := rfl

theorem loop_succ :
    loop out round (k + 1) a ts =
      (match round a ts with
        | none => .ok (a, ts)
        | some p => (p >>= loop out round k) ts) := rfl

/-- A loop stops where no round is due. -/
theorem loop_stop (h : round a ts = none) : loop out round k a ts = .ok (a, ts) := by
  cases k with
  | zero => rw [loop_zero, h]; rfl
  | succ k => rw [loop_succ, h]

/-- A loop after one more round. -/
theorem loop_step {p : Parser τ ε α} (h : round a ts = some p) (hp : p ts = .ok (b, ts')) :
    loop out round (k + 1) a ts = loop out round k b ts' := by
  rw [loop_succ, h]
  exact bind_ok hp

/-- A loop that takes a round and succeeds is the round and the loop after it. -/
theorem loop_eq_ok {p : Parser τ ε α} {r : α × List τ} (h : round a ts = some p) (hl : loop out round k a ts = .ok r) :
    ∃ k' b ts', k = k' + 1 ∧ p ts = .ok (b, ts') ∧ loop out round k' b ts' = .ok r := by
  cases k with
  | zero =>
    rw [loop_zero, h] at hl
    cases hl
  | succ k =>
    rw [loop_succ, h] at hl
    obtain ⟨b, ts', hp, hq⟩ := bind_eq_ok.mp hl
    exact ⟨k, b, ts', rfl, hp, hq⟩

/-- What every round keeps, a loop keeps. -/
theorem loop_keeps (D : α → α → Prop) (refl : ∀ a, D a a) (trans : ∀ a b c, D a b → D b c → D a c)
    (step : ∀ a ts p b ts', round a ts = some p → p ts = .ok (b, ts') → D a b) {r : α × List τ}
    (h : loop out round k a ts = .ok r) : D a r.1 := by
  induction k generalizing a ts with
  | zero =>
    cases hr : round a ts with
    | none =>
      rw [loop_stop hr] at h
      cases h
      exact refl a
    | some p =>
      obtain ⟨k', _, _, hk, _⟩ := loop_eq_ok hr h
      cases hk
  | succ k ih =>
    cases hr : round a ts with
    | none =>
      rw [loop_stop hr] at h
      cases h
      exact refl a
    | some p =>
      obtain ⟨k', b, ts', hk, hp, hl⟩ := loop_eq_ok hr h
      cases hk
      exact trans _ _ _ (step _ _ _ _ _ hr hp) (ih hl)

/-! ## Outcomes

What a parser does on tokens that some condition says whether it takes as meant: there it reads them, and elsewhere nothing that
it gives is good. -/

structure Outcome (Good : α → Prop) (p : Parser τ ε α) (ts : List τ) (c : Prop) (a : α) (rest : List τ) : Prop where
  reads : c → p ts = .ok (a, rest)
  spoils : ¬c → ∀ b r, p ts = .ok (b, r) → ¬Good b

variable {Good : α → Prop} {Good' : β → Prop} {p : Parser τ ε α} {q : α → Parser τ ε β} {c c' : Prop} {rest : List τ}

theorem Outcome.of_eq (h : p ts = .ok (a, rest)) : Outcome Good p ts True a rest :=
  ⟨fun _ => h, fun hc => absurd trivial hc⟩

theorem Outcome.congr (h : Outcome Good p ts c a rest) (hc : c' ↔ c) : Outcome Good p ts c' a rest :=
  ⟨fun h' => h.reads (hc.mp h'), fun h' => h.spoils (mt hc.mpr h')⟩

/-- After a first part that only takes tokens. -/
theorem Outcome.after {b : β} (hp : p ts = .ok (a, ts')) (hq : Outcome Good' (q a) ts' c b rest) :
    Outcome Good' (p >>= q) ts c b rest := by
  refine ⟨fun hc => ?_, fun hc r r' h => ?_⟩
  · rw [bind_ok hp, hq.reads hc]
  · rw [bind_ok hp] at h
    exact hq.spoils hc r r' h

/-- One part after another. What the second makes of something that is not good is not good either. -/
theorem Outcome.bind {b : β} (hp : Outcome Good p ts c a ts') (hq : Outcome Good' (q a) ts' c' b rest)
    (keeps : ∀ a ts b r, q a ts = .ok (b, r) → Good' b → Good a) : Outcome Good' (p >>= q) ts (c ∧ c') b rest := by
  refine ⟨fun hc => ?_, fun hc r r' h hgood => ?_⟩
  · rw [bind_ok (hp.reads hc.1), hq.reads hc.2]
  · obtain ⟨a', ts'', hp', hq'⟩ := bind_eq_ok.mp h
    by_cases h1 : c
    · rw [hp.reads h1] at hp'
      cases hp'
      exact hq.spoils (fun h2 => hc ⟨h1, h2⟩) r r' hq' hgood
    · exact hp.spoils h1 a' ts'' hp' (keeps _ _ _ _ hq' hgood)

/-- The result of a parser made into another. -/
theorem Outcome.map {f : α → β} (hp : Outcome Good p ts c a rest) (keeps : ∀ a, Good' (f a) → Good a) :
    Outcome Good' (do return f (← p)) ts c (f a) rest := by
  refine (Outcome.bind hp (Outcome.of_eq rfl) ?_).congr (and_iff_left trivial).symm
  intro a ts b r h hgood
  cases h
  exact keeps a hgood

/-- A parser comes to a loop that has at most `m` rounds behind it. -/
structure Opens (Good : α → Prop) (out : ε) (round : α → List τ → Option (Parser τ ε α)) (k : Nat) (p : Parser τ ε α)
    (ts : List τ) (m : Nat) (c : Prop) (a : α) (rest : List τ) : Prop where
  reads : c → ∃ k', k ≤ k' + m ∧ p ts = loop out round k' a rest
  spoils : ¬c → ∀ b r, p ts = .ok (b, r) → ¬Good b

/-- Every round keeps what is not good as it is. -/
def RoundsKeep (Good : α → Prop) (round : α → List τ → Option (Parser τ ε α)) : Prop :=
  ∀ a ts p b r, round a ts = some p → p ts = .ok (b, r) → Good b → Good a

theorem RoundsKeep.loop (hkeep : RoundsKeep Good round) {r : α × List τ} (h : loop out round k a ts = .ok r) :
    Good r.1 → Good a :=
  loop_keeps (fun a b => Good b → Good a) (fun _ => id) (fun _ _ _ hab hbc hc => hab (hbc hc)) hkeep h

namespace Opens

variable {m m' : Nat}

theorem weaken (h : Opens Good out round k p ts m c a rest) (hm : m ≤ m') : Opens Good out round k p ts m' c a rest := by
  refine ⟨fun hc => ?_, h.spoils⟩
  obtain ⟨k', hk, hp⟩ := h.reads hc
  exact ⟨k', by omega, hp⟩

theorem congr (h : Opens Good out round k p ts m c a rest) (hc : c' ↔ c) : Opens Good out round k p ts m c' a rest :=
  ⟨fun h' => h.reads (hc.mp h'), fun h' => h.spoils (mt hc.mpr h')⟩

/-- A parser and a loop that starts from what it gives. -/
theorem start {q : Parser τ ε β} {b : β} {f : β → α} (hq : Outcome Good' q ts c b rest) (hf : ∀ b, Good (f b) → Good' b)
    (hkeep : RoundsKeep Good round) : Opens Good out round k (q >>= fun b => loop out round k (f b)) ts 0 c (f b) rest := by
  refine ⟨fun hc => ⟨k, Nat.le_refl k, bind_ok (hq.reads hc)⟩, fun hc b r h hgood => ?_⟩
  obtain ⟨b', ts', hq', hl⟩ := bind_eq_ok.mp h
  exact hq.spoils hc b' ts' hq' (hf b' (hkeep.loop hl hgood))

/-- A loop comes one round further. -/
theorem step (h : Opens Good out round k p ts m c a ts') (hkeep : RoundsKeep Good round) (hm : m < k) {q : Parser τ ε α}
    (hround : round a ts' = some q) (hq : Outcome Good q ts' c' b rest) :
    Opens Good out round k p ts (m + 1) (c ∧ c') b rest := by
  refine ⟨fun hc => ?_, fun hc r r' hr hgood => ?_⟩
  · obtain ⟨k', hk, hp⟩ := h.reads hc.1
    obtain ⟨k'', rfl⟩ : ∃ k'', k' = k'' + 1 := ⟨k' - 1, by omega⟩
    exact ⟨k'', by omega, by rw [hp, loop_step hround (hq.reads hc.2)]⟩
  · by_cases h1 : c
    · obtain ⟨k', hk, hp⟩ := h.reads h1
      rw [hp] at hr
      obtain ⟨k'', a', ts'', _, hq', hl⟩ := loop_eq_ok hround hr
      exact hq.spoils (fun h2 => hc ⟨h1, h2⟩) a' ts'' hq' (hkeep.loop hl hgood)
    · exact h.spoils h1 r r' hr hgood

/-- A loop with no round due is done. -/
theorem stop (h : Opens Good out round k p ts m c a rest) (hstop : round a rest = none) : Outcome Good p ts c a rest := by
  refine ⟨fun hc => ?_, h.spoils⟩
  obtain ⟨k', _, hp⟩ := h.reads hc
  rw [hp, loop_stop hstop]

end Opens

end Descent
