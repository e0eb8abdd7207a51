import Mathlib.Data.List.Basic

/-!
# Reading back what was written

A writer gives the bytes of a value or an error; a reader goes over a payload and keeps how far it has come. `Reads x bs a`
says that `x` reads `a` wherever `bs` come next, and consumes exactly these bytes. It holds of a sequence of readers when it
holds of each, the bytes standing one after the other, so a reader built like its writer reads back what the writer wrote
(`Inverts`).
-/

namespace Wire

variable {α β γ ε : Type}

/-- A payload and how far it has been read. -/
structure Reader (α : Type) where
  payload : List α
  offset : Nat

/-- A reading of a `β` from the payload, which may fail. -/
abbrev Reading (α ε β : Type) := StateT (Reader α) (Except ε) β

/-- Read the next entries, `needed` of them. Where fewer remain the reading fails, with an error made from the offset, the
count needed and the count that remains. -/
def take (truncated : Nat → Nat → Nat → ε) (needed : Nat) : Reading α ε (List α) := fun r =>
  let remaining := r.payload.length - r.offset
  if remaining < needed then .error (truncated r.offset needed remaining)
  else .ok ((r.payload.drop r.offset).take needed, { r with offset := r.offset + needed })

/-- The same reading `n` times. -/
def times (x : Reading α ε β) : Nat → Reading α ε (List β)
  | 0 => pure []
  | n + 1 => do
    let b ← x
    let bs ← times x n
    return b :: bs

/-- Values written one after the other. -/
def writeAll (write : β → Except ε (List α)) : List β → Except ε (List α)
  | [] => .ok []
  | b :: bs => do
    let front ← write b
    let rest ← writeAll write bs
    return front ++ rest

/-- Wherever `bs` come next, `x` reads `b` and consumes `bs`. -/
def Reads (x : Reading α ε β) (bs : List α) (b : β) : Prop :=
  ∀ pre post, x ⟨pre ++ (bs ++ post), pre.length⟩ = .ok (b, ⟨pre ++ (bs ++ post), (pre ++ bs).length⟩)

/-- What the writer writes of a value, the reader reads as that value. -/
def Inverts (x : Reading α ε β) (write : β → Except ε (List α)) : Prop := ∀ b bs, write b = .ok bs → Reads x bs b

namespace Reads

theorem pure (b : β) : Reads (Pure.pure b : Reading α ε β) [] b := by
  intro pre post
  rw [List.append_nil]
  rfl

/-- A reading followed by another reads their bytes one after the other. -/
theorem bind {x : Reading α ε β} {f : β → Reading α ε γ} {bs cs : List α} {b : β} {c : γ} (hx : Reads x bs b)
    (hf : Reads (f b) cs c) : Reads (x >>= f) (bs ++ cs) c := by
  intro pre post
  have hfst := hx pre (cs ++ post)
  have hsnd := hf (pre ++ bs) post
  rw [List.append_assoc] at hsnd
  rw [List.append_assoc]
  change (x ⟨pre ++ (bs ++ (cs ++ post)), pre.length⟩ >>= fun p => f p.1 p.2) = _
  rw [hfst]
  change f b ⟨pre ++ (bs ++ (cs ++ post)), (pre ++ bs).length⟩ = _
  rw [hsnd, List.append_assoc]

/-- A reading whose last step reads no more. -/
theorem last {x : Reading α ε β} {f : β → Reading α ε γ} {bs : List α} {b : β} {c : γ} (hx : Reads x bs b)
    (hf : f b = Pure.pure c) : Reads (x >>= f) bs c := by
  have hend : Reads (f b) [] c := by
    rw [hf]
    exact pure c
  have h := hx.bind hend
  rwa [List.append_nil] at h

/-- A reading whose last step only builds the value. -/
theorem map {x : Reading α ε β} {bs : List α} {b : β} (hx : Reads x bs b) (f : β → γ) :
    Reads (x >>= fun b => Pure.pure (f b)) bs (f b) :=
  hx.last rfl

/-- A check that passes reads nothing. -/
theorem check {x : Reading α ε PUnit} {f : PUnit → Reading α ε γ} {cs : List α} {c : γ} (hx : x = Pure.pure ⟨⟩)
    (hf : Reads (f ⟨⟩) cs c) : Reads (x >>= f) cs c := by
  rw [hx]
  exact (pure (α := α) (ε := ε) PUnit.unit).bind hf

theorem take (truncated : Nat → Nat → Nat → ε) (bs : List α) : Reads (Wire.take truncated bs.length) bs bs := by
  intro pre post
  have hlen : ¬(pre ++ (bs ++ post)).length - pre.length < bs.length := by
    simp only [List.length_append]
    omega
  unfold Wire.take
  simp only
  rw [if_neg hlen, List.drop_left, List.take_left, List.length_append]

/-- Readings of the same kind, one after the other, read a list. -/
theorem times {x : Reading α ε β} {write : β → Except ε (List α)} (h : Inverts x write) {l : List β} {bs : List α}
    (hw : writeAll write l = .ok bs) : Reads (Wire.times x l.length) bs l := by
  induction l generalizing bs with
  | nil =>
    cases hw
    exact pure []
  | cons b l ih =>
    simp only [writeAll] at hw
    cases hb : write b with
    | error e => rw [hb] at hw; cases hw
    | ok front =>
      cases hl : writeAll write l with
      | error e => rw [hb, hl] at hw; cases hw
      | ok rest =>
        rw [hb, hl] at hw
        cases hw
        exact (h b front hb).bind ((ih hl).map (b :: ·))

/-- From the start of the bytes it reads, a reading ends where they end. -/
theorem run {x : Reading α ε β} {bs : List α} {b : β} (h : Reads x bs b) : x ⟨bs, 0⟩ = .ok (b, ⟨bs, bs.length⟩) := by
  have hrun := h [] []
  rwa [List.nil_append, List.append_nil, List.nil_append] at hrun

end Reads

end Wire
