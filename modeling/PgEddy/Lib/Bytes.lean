import Mathlib.Algebra.Order.Ring.Int
import Mathlib.Data.List.Basic

/-!
# Byte strings: ranges, writes in place, little-endian numbers

What a program does to a buffer it addresses by offset: read a range (`slice`), overwrite a range (`writeAt`), and store a
number in a fixed count of bytes, least significant first (`leBytes`, read back by `leNat`).
-/

namespace ByteBuffer

variable {α : Type}

/-- The `n` entries from offset `off`. -/
def slice (l : List α) (off n : Nat) : List α := (l.drop off).take n

/-- The buffer with the range that starts at `off` overwritten by `bs`. -/
def writeAt (l : List α) (off : Nat) (bs : List α) : List α :=
  l.take off ++ bs ++ l.drop (off + bs.length)

/-- The `w` low bytes of a number, least significant first. -/
def leBytes : Nat → Nat → List UInt8
  | 0, _ => []
  | w + 1, n => UInt8.ofNat (n % 256) :: leBytes w (n / 256)

/-- The number whose bytes, least significant first, are given. -/
def leNat : List UInt8 → Nat
  | [] => 0
  | b :: bs => b.toNat + 256 * leNat bs

/-- A list of writes, each an offset and what is written there, first to last. -/
def applyWrites (l : List α) (ws : List (Nat × List α)) : List α := ws.foldl (fun l w => writeAt l w.1 w.2) l

/-- Every write of a list stays inside a buffer of the given length. -/
def InRange (len : Nat) (ws : List (Nat × List α)) : Prop := ∀ w ∈ ws, w.1 + w.2.length ≤ len

/-- No write of a list meets the range of `n` entries from `o`. -/
def Apart (o n : Nat) (ws : List (Nat × List α)) : Prop := ∀ w ∈ ws, o + n ≤ w.1 ∨ w.1 + w.2.length ≤ o

/-! ## Ranges and writes -/

@[simp] theorem length_writeAt (l : List α) (off : Nat) (bs : List α) (h : off + bs.length ≤ l.length) :
    (writeAt l off bs).length = l.length := by
  simp only [writeAt, List.length_append, List.length_take, List.length_drop]
  omega

theorem length_slice (l : List α) (off n : Nat) (h : off + n ≤ l.length) : (slice l off n).length = n := by
  simp only [slice, List.length_take, List.length_drop]
  omega

/-- A range written is the range read back. -/
theorem slice_writeAt_self (l : List α) (off : Nat) (bs : List α) (h : off ≤ l.length) :
    slice (writeAt l off bs) off bs.length = bs := by
  have hlen : (l.take off).length = off := by simp only [List.length_take]; omega
  simp only [slice, writeAt, List.append_assoc]
  rw [List.drop_append_of_le_length (by omega), List.drop_eq_nil_of_le (by omega), List.nil_append, List.take_left]

/-- A range that ends before a write is not changed by it. -/
theorem slice_writeAt_before (l : List α) (off : Nat) (bs : List α) (o n : Nat) (h : off ≤ l.length) (hd : o + n ≤ off) :
    slice (writeAt l off bs) o n = slice l o n := by
  have hlen : (l.take off).length = off := by simp only [List.length_take]; omega
  simp only [slice, writeAt, List.append_assoc]
  rw [List.drop_append_of_le_length (by omega), List.take_append_of_le_length (by simp only [List.length_drop]; omega),
    List.drop_take, List.take_take, Nat.min_eq_left (by omega)]

/-- A range that starts after a write is not changed by it. -/
theorem slice_writeAt_after (l : List α) (off : Nat) (bs : List α) (o n : Nat) (h : off ≤ l.length)
    (hd : off + bs.length ≤ o) : slice (writeAt l off bs) o n = slice l o n := by
  have hlen : (l.take off ++ bs).length = off + bs.length := by
    simp only [List.length_append, List.length_take]; omega
  have ho : off + bs.length + (o - (off + bs.length)) = o := by omega
  simp only [slice, writeAt]
  rw [List.drop_append, List.drop_eq_nil_of_le (by omega), List.nil_append, hlen, List.drop_drop, ho]

/-- A write over the whole of an earlier write of the same length replaces it. -/
theorem writeAt_writeAt_self (l : List α) (off : Nat) (bs cs : List α) (h : off ≤ l.length) (hl : bs.length = cs.length) :
    writeAt (writeAt l off bs) off cs = writeAt l off cs := by
  have hlen : (l.take off).length = off := by simp only [List.length_take]; omega
  have hlen' : (l.take off ++ bs).length = off + cs.length := by
    simp only [List.length_append, List.length_take]; omega
  have h1 : (l.take off ++ (bs ++ l.drop (off + bs.length))).take off = l.take off := by
    rw [List.take_append_of_le_length (by omega), List.take_take, Nat.min_self]
  have h2 : (l.take off ++ bs ++ l.drop (off + bs.length)).drop (off + cs.length) = l.drop (off + cs.length) := by
    rw [← hlen', List.drop_left, hlen', hl]
  simp only [writeAt]
  rw [h2, List.append_assoc (l.take off), h1]

/-- Writing a range of a buffer over itself leaves the buffer as it is. -/
theorem writeAt_slice (l : List α) (off n : Nat) (h : off + n ≤ l.length) : writeAt l off (slice l off n) = l := by
  simp only [writeAt, length_slice l off n h]
  rw [slice, ← List.drop_drop, List.append_assoc, List.take_append_drop, List.take_append_drop]

/-! ## Lists of writes -/

theorem length_applyWrites {l : List α} {ws : List (Nat × List α)} (h : InRange l.length ws) :
    (applyWrites l ws).length = l.length := by
  induction ws generalizing l with
  | nil => rfl
  | cons w ws ih =>
    obtain ⟨hw, hws⟩ := List.forall_mem_cons.mp h
    have hlen : (writeAt l w.1 w.2).length = l.length := length_writeAt l w.1 w.2 hw
    exact (ih (l := writeAt l w.1 w.2) (by rwa [hlen])).trans hlen

/-- Writes apart from a range leave it as it is. -/
theorem slice_applyWrites_apart {l : List α} {ws : List (Nat × List α)} {o n : Nat} (h : InRange l.length ws)
    (hd : Apart o n ws) : slice (applyWrites l ws) o n = slice l o n := by
  induction ws generalizing l with
  | nil => rfl
  | cons w ws ih =>
    obtain ⟨hw, hws⟩ := List.forall_mem_cons.mp h
    obtain ⟨hdw, hdws⟩ := List.forall_mem_cons.mp hd
    have hlen : (writeAt l w.1 w.2).length = l.length := length_writeAt l w.1 w.2 hw
    refine (ih (l := writeAt l w.1 w.2) (by rwa [hlen]) hdws).trans ?_
    rcases hdw with hb | ha
    · exact slice_writeAt_before l w.1 w.2 o n (by omega) hb
    · exact slice_writeAt_after l w.1 w.2 o n (by omega) ha

/-- A write that no later write meets is read back. -/
theorem slice_applyWrites {l : List α} (pre : List (Nat × List α)) (off : Nat) (bs : List α) (post : List (Nat × List α))
    (h : InRange l.length (pre ++ (off, bs) :: post)) (hd : Apart off bs.length post) :
    slice (applyWrites l (pre ++ (off, bs) :: post)) off bs.length = bs := by
  obtain ⟨hpre, hrest⟩ := List.forall_mem_append.mp h
  obtain ⟨hw, hpost⟩ := List.forall_mem_cons.mp hrest
  have hlen : (applyWrites l pre).length = l.length := length_applyWrites hpre
  have hlen' : (writeAt (applyWrites l pre) off bs).length = l.length := by
    rw [length_writeAt _ _ _ (by rw [hlen]; exact hw), hlen]
  have hw' : off + bs.length ≤ l.length := hw
  have hsplit : applyWrites l (pre ++ (off, bs) :: post) =
      applyWrites (writeAt (applyWrites l pre) off bs) post := by
    simp only [applyWrites, List.foldl_append, List.foldl_cons]
  rw [hsplit, slice_applyWrites_apart (by rwa [hlen']) hd, slice_writeAt_self _ _ _ (by omega)]

/-- An entry of a buffer after a write. -/
theorem getElem?_writeAt (l : List α) (off : Nat) (bs : List α) (i : Nat) (h : off + bs.length ≤ l.length) :
    (writeAt l off bs)[i]? = if off ≤ i ∧ i < off + bs.length then bs[i - off]? else l[i]? := by
  have hlen : (l.take off).length = off := by simp only [List.length_take]; omega
  simp only [writeAt, List.getElem?_append, List.length_append, hlen, List.getElem?_drop, List.getElem?_take]
  by_cases h1 : i < off
  · rw [if_pos (by omega), if_pos h1, if_pos h1, if_neg (by omega)]
  · by_cases h2 : i < off + bs.length
    · rw [if_pos h2, if_neg h1, if_pos ⟨by omega, h2⟩]
    · rw [if_neg h2, if_neg (by omega), Nat.add_sub_cancel' (by omega)]

/-- Writes apart from each other commute. -/
theorem writeAt_comm (l : List α) (o₁ o₂ : Nat) (b₁ b₂ : List α) (h₁ : o₁ + b₁.length ≤ l.length)
    (h₂ : o₂ + b₂.length ≤ l.length) (hd : o₁ + b₁.length ≤ o₂ ∨ o₂ + b₂.length ≤ o₁) :
    writeAt (writeAt l o₁ b₁) o₂ b₂ = writeAt (writeAt l o₂ b₂) o₁ b₁ := by
  refine List.ext_getElem? fun i => ?_
  rw [getElem?_writeAt _ _ _ _ (by rwa [length_writeAt _ _ _ h₁]), getElem?_writeAt _ _ _ _ h₁,
    getElem?_writeAt _ _ _ _ (by rwa [length_writeAt _ _ _ h₂]), getElem?_writeAt _ _ _ _ h₂]
  split <;> split <;> first | rfl | omega

/-- A write apart from all writes of a list may come before them. -/
theorem writeAt_applyWrites {l : List α} {ws : List (Nat × List α)} {off : Nat} {bs : List α} (h : InRange l.length ws)
    (hb : off + bs.length ≤ l.length) (hd : Apart off bs.length ws) :
    writeAt (applyWrites l ws) off bs = applyWrites (writeAt l off bs) ws := by
  induction ws generalizing l with
  | nil => rfl
  | cons w ws ih =>
    obtain ⟨hw, hws⟩ := List.forall_mem_cons.mp h
    obtain ⟨hdw, hdws⟩ := List.forall_mem_cons.mp hd
    have hlen : (writeAt l w.1 w.2).length = l.length := length_writeAt l w.1 w.2 hw
    refine (ih (l := writeAt l w.1 w.2) (by rwa [hlen]) (by rwa [hlen]) hdws).trans ?_
    exact congrArg (applyWrites · ws) (writeAt_comm l w.1 off w.2 bs hw hb hdw.symm)

theorem applyWrites_append (l : List α) (ws ws' : List (Nat × List α)) :
    applyWrites l (ws ++ ws') = applyWrites (applyWrites l ws) ws' := by
  simp only [applyWrites, List.foldl_append]

/-! ## Bytes at an offset -/

/-- The buffer holds the bytes at an offset. -/
def Stands (l : List α) (off : Nat) (bs : List α) : Prop := ∃ pre post, l = pre ++ (bs ++ post) ∧ pre.length = off

theorem Stands.length_le {l bs : List α} {off : Nat} (h : Stands l off bs) : off + bs.length ≤ l.length := by
  obtain ⟨pre, post, rfl, rfl⟩ := h
  simp only [List.length_append]
  omega

theorem Stands.left {l bs cs : List α} {off : Nat} (h : Stands l off (bs ++ cs)) : Stands l off bs := by
  obtain ⟨pre, post, rfl, rfl⟩ := h
  exact ⟨pre, cs ++ post, by rw [List.append_assoc], rfl⟩

theorem Stands.right {l bs cs : List α} {off : Nat} (h : Stands l off (bs ++ cs)) : Stands l (off + bs.length) cs := by
  obtain ⟨pre, post, rfl, rfl⟩ := h
  exact ⟨pre ++ bs, post, by rw [List.append_assoc, List.append_assoc], List.length_append⟩

/-- Bytes that stand in the buffer are the range read there. -/
theorem Stands.slice {l bs : List α} {off : Nat} (h : Stands l off bs) : slice l off bs.length = bs := by
  obtain ⟨pre, post, rfl, rfl⟩ := h
  unfold ByteBuffer.slice
  rw [List.drop_left, List.take_left]

theorem Stands.head {l bs : List α} {off : Nat} {b : α} (h : Stands l off (b :: bs)) : l[off]? = some b := by
  obtain ⟨pre, post, rfl, rfl⟩ := h
  rw [List.getElem?_append_right (Nat.le_refl _), Nat.sub_self, List.cons_append, List.getElem?_cons_zero]

theorem Stands.tail {l bs : List α} {off : Nat} {b : α} (h : Stands l off (b :: bs)) : Stands l (off + 1) bs :=
  @Stands.right _ l [b] bs off h

/-! ## Little-endian numbers -/

@[simp] theorem length_leBytes (w n : Nat) : (leBytes w n).length = w := by
  induction w generalizing n with
  | zero => rfl
  | succ w ih => simp [leBytes, ih]

/-- The bytes of a number give back the number, cut to the width. -/
theorem leNat_leBytes (w n : Nat) : leNat (leBytes w n) = n % 256 ^ w := by
  induction w generalizing n with
  | zero => simp [leBytes, leNat, Nat.mod_one]
  | succ w ih =>
    have hb : (UInt8.ofNat (n % 256)).toNat = n % 256 := by simp [UInt8.toNat_ofNat']
    rw [leBytes, leNat, ih, hb, Nat.pow_succ, Nat.mul_comm (256 ^ w) 256, Nat.mod_mul]

/-- A number that fits its width is read back whole. -/
theorem leNat_leBytes_of_lt (w n : Nat) (h : n < 256 ^ w) : leNat (leBytes w n) = n := by
  rw [leNat_leBytes, Nat.mod_eq_of_lt h]

/-- A byte string of `w` bytes holds a number below `256 ^ w`. -/
theorem leNat_lt (bs : List UInt8) : leNat bs < 256 ^ bs.length := by
  induction bs with
  | nil => simp [leNat]
  | cons b bs ih =>
    have hb : b.toNat < 256 := b.toNat_lt
    simp only [leNat, List.length_cons, Nat.pow_succ]
    omega

/-! ## Big-endian numbers -/

/-- The `w` low bytes of a number, most significant first. -/
def beBytes (w n : Nat) : List UInt8 := (leBytes w n).reverse

/-- The number whose bytes, most significant first, are given. -/
def beNat (bs : List UInt8) : Nat := leNat bs.reverse

@[simp] theorem length_beBytes (w n : Nat) : (beBytes w n).length = w := by
  rw [beBytes, List.length_reverse, length_leBytes]

theorem beNat_beBytes_of_lt (w n : Nat) (h : n < 256 ^ w) : beNat (beBytes w n) = n := by
  rw [beNat, beBytes, List.reverse_reverse, leNat_leBytes_of_lt w n h]

/-! ## Signed words -/

/-- The bytes of a 64-bit signed integer. -/
def i64ToLe (x : Int64) : List UInt8 := leBytes 8 x.toUInt64.toNat

/-- The 64-bit signed integer of eight bytes. -/
def i64OfLe (bs : List UInt8) : Int64 := (UInt64.ofNat (leNat bs)).toInt64

/-- The bytes of a 32-bit signed integer. -/
def i32ToLe (x : Int32) : List UInt8 := leBytes 4 x.toUInt32.toNat

/-- The 32-bit signed integer of four bytes. -/
def i32OfLe (bs : List UInt8) : Int32 := (UInt32.ofNat (leNat bs)).toInt32

@[simp] theorem length_i64ToLe (x : Int64) : (i64ToLe x).length = 8 := length_leBytes _ _

@[simp] theorem length_i32ToLe (x : Int32) : (i32ToLe x).length = 4 := length_leBytes _ _

@[simp] theorem i64OfLe_i64ToLe (x : Int64) : i64OfLe (i64ToLe x) = x := by
  have hx : x.toUInt64.toNat < 256 ^ 8 := x.toUInt64.toNat_lt
  simp only [i64OfLe, i64ToLe, leNat_leBytes_of_lt _ _ hx, UInt64.ofNat_toNat]
  rfl

@[simp] theorem i32OfLe_i32ToLe (x : Int32) : i32OfLe (i32ToLe x) = x := by
  have hx : x.toUInt32.toNat < 256 ^ 4 := x.toUInt32.toNat_lt
  simp only [i32OfLe, i32ToLe, leNat_leBytes_of_lt _ _ hx, UInt32.ofNat_toNat]
  rfl

end ByteBuffer
