import Mathlib.Data.List.Basic
import PgEddy.Lib.Text

/-!
# Walking over a text by its bytes

A program may walk over a text byte by byte and cut it at the offsets it has reached. A cut has a result only between two
characters; an offset that stands before a known rest of the text is between two characters.
-/

namespace Text

/-- The bytes of a text. -/
def utf8 (cs : List Char) : List UInt8 := cs.flatMap String.utf8EncodeChar

/-- The first byte of a character. -/
def lead (c : Char) : UInt8 := (String.utf8EncodeChar c).headD 0

/-- A character of one byte. -/
def isAscii (c : Char) : Bool := c.toNat < 128

/-- The text from an offset on. -/
def dropTo : Nat → List Char → Option (List Char)
  | 0, cs => some cs
  | _ + 1, [] => none
  | n + 1, c :: cs => if c.utf8Size ≤ n + 1 then dropTo (n + 1 - c.utf8Size) cs else none

/-- The text between two offsets. -/
def cut (a b : Nat) (cs : List Char) : Option (List Char) := if a ≤ b then (dropTo a cs).bind (prefixTo (b - a)) else none

/-- At the offset the text goes on with `suf`. -/
def StandsBefore (cs : List Char) (pos : Nat) (suf : List Char) : Prop := ∃ pre, cs = pre ++ suf ∧ pos = byteLen pre

/-! ## The bytes of a character -/

theorem encodeChar_of_isAscii {c : Char} (h : isAscii c = true) : String.utf8EncodeChar c = [c.toUInt8] := by
  have hle : c.val.toNat ≤ 127 := Nat.le_of_lt_succ (of_decide_eq_true h)
  rw [String.utf8EncodeChar, if_pos hle]
  rfl

theorem utf8Size_of_isAscii {c : Char} (h : isAscii c = true) : c.utf8Size = 1 := by
  rw [← String.length_utf8EncodeChar, encodeChar_of_isAscii h]
  rfl

/-- No byte of a longer character is a character of its own. -/
theorem le_of_mem_encodeChar {c : Char} (h : isAscii c = false) {b : UInt8} (hb : b ∈ String.utf8EncodeChar c) :
    128 ≤ b.toNat := by
  have hlt : ¬c.val.toNat ≤ 127 := fun hle => Bool.noConfusion (h.symm.trans (decide_eq_true (Nat.lt_succ_of_le hle)))
  have hmax := c.valid
  rw [String.utf8EncodeChar, if_neg hlt] at hb
  split at hb <;> try split at hb
  all_goals
    simp only [List.mem_cons, List.not_mem_nil, or_false] at hb
    rcases hb with rfl | rfl | rfl | rfl <;> simp only [UInt8.toNat_ofNat'] <;> omega

theorem one_lt_utf8Size {c : Char} (h : isAscii c = false) : 1 < c.utf8Size := by
  have hlt : ¬c.val.toNat ≤ 127 := fun hle => Bool.noConfusion (h.symm.trans (decide_eq_true (Nat.lt_succ_of_le hle)))
  rw [← String.length_utf8EncodeChar, String.utf8EncodeChar, if_neg hlt]
  split <;> try split
  all_goals simp

theorem encodeChar_eq_cons (c : Char) : ∃ bs, String.utf8EncodeChar c = lead c :: bs := by
  cases henc : String.utf8EncodeChar c with
  | nil => exact absurd henc String.utf8EncodeChar_ne_nil
  | cons b bs => exact ⟨bs, by rw [lead, henc, List.headD_cons]⟩

theorem lead_of_isAscii {c : Char} (h : isAscii c = true) : lead c = c.toUInt8 := by
  rw [lead, encodeChar_of_isAscii h]
  rfl

theorem le_lead {c : Char} (h : isAscii c = false) : 128 ≤ (lead c).toNat := by
  obtain ⟨bs, hbs⟩ := encodeChar_eq_cons c
  exact le_of_mem_encodeChar h (hbs ▸ List.mem_cons_self)

theorem toNat_lead_of_isAscii {c : Char} (h : isAscii c = true) : (lead c).toNat = c.toNat := by
  have hlt : c.toNat < 128 := of_decide_eq_true h
  rw [lead_of_isAscii h]
  show c.val.toNat % 256 = c.val.toNat
  exact Nat.mod_eq_of_lt (Nat.lt_trans hlt (by decide))

/-- A byte below 128 is the first of one character only. -/
theorem lead_eq_iff {c d : Char} (hd : isAscii d = true) : lead c = d.toUInt8 ↔ c = d := by
  constructor
  · intro h
    have hlead := toNat_lead_of_isAscii hd
    rw [lead_of_isAscii hd, ← h] at hlead
    cases hc : isAscii c with
    | true =>
      rw [toNat_lead_of_isAscii hc] at hlead
      exact Char.ext (UInt32.toNat_inj.mp hlead)
    | false =>
      have hle := le_lead hc
      have hlt : d.toNat < 128 := of_decide_eq_true hd
      omega
  · rintro rfl
    exact lead_of_isAscii hd

/-! ## Offsets -/

@[simp] theorem byteLen_nil : byteLen [] = 0 := rfl

@[simp] theorem byteLen_cons (c : Char) (cs : List Char) : byteLen (c :: cs) = c.utf8Size + byteLen cs := by
  simp [byteLen]

@[simp] theorem byteLen_append (as bs : List Char) : byteLen (as ++ bs) = byteLen as + byteLen bs := by
  simp [byteLen]

theorem utf8_append (as bs : List Char) : utf8 (as ++ bs) = utf8 as ++ utf8 bs := List.flatMap_append

@[simp] theorem utf8_cons (c : Char) (cs : List Char) : utf8 (c :: cs) = String.utf8EncodeChar c ++ utf8 cs := rfl

@[simp] theorem utf8_nil : utf8 [] = [] := rfl

@[simp] theorem length_utf8 (cs : List Char) : (utf8 cs).length = byteLen cs := by
  induction cs with
  | nil => rfl
  | cons c cs ih => rw [utf8_cons, List.length_append, String.length_utf8EncodeChar, ih, byteLen_cons]

theorem dropTo_append (pre suf : List Char) : dropTo (byteLen pre) (pre ++ suf) = some suf := by
  induction pre with
  | nil => rw [byteLen_nil, List.nil_append, dropTo]
  | cons c pre ih =>
    obtain ⟨n, hn⟩ : ∃ n, c.utf8Size + byteLen pre = n + 1 := ⟨c.utf8Size + byteLen pre - 1, by have := c.utf8Size_pos; omega⟩
    rw [byteLen_cons, hn, List.cons_append, dropTo, if_pos (by omega), ← hn, Nat.add_sub_cancel_left, ih]

theorem prefixTo_append (mid suf : List Char) : prefixTo (byteLen mid) (mid ++ suf) = some mid := by
  induction mid with
  | nil => rw [byteLen_nil, prefixTo]
  | cons c mid ih =>
    obtain ⟨n, hn⟩ : ∃ n, c.utf8Size + byteLen mid = n + 1 := ⟨c.utf8Size + byteLen mid - 1, by have := c.utf8Size_pos; omega⟩
    rw [byteLen_cons, hn, List.cons_append, prefixTo, if_pos (by omega), ← hn, Nat.add_sub_cancel_left, ih]
    rfl

/-- Inside a character no character starts. -/
theorem charAt_append (pre : List Char) (c : Char) (suf : List Char) {i : Nat} (hi : i < c.utf8Size) :
    charAt (byteLen pre + i) (pre ++ c :: suf) = if i = 0 then some c else none := by
  induction pre with
  | nil =>
    rw [byteLen_nil, Nat.zero_add, List.nil_append]
    cases i with
    | zero => rfl
    | succ i => rw [charAt, if_neg (Nat.not_le.mpr hi)]; rfl
  | cons d pre ih =>
    obtain ⟨n, hn⟩ : ∃ n, d.utf8Size + byteLen pre + i = n + 1 :=
      ⟨d.utf8Size + byteLen pre + i - 1, by have := d.utf8Size_pos; omega⟩
    rw [byteLen_cons, hn, List.cons_append, charAt, if_pos (by omega), ← hn, Nat.add_assoc, Nat.add_sub_cancel_left, ih]

/-! ## Offsets before a rest -/

namespace StandsBefore

variable {cs suf : List Char} {pos : Nat}

theorem start (cs : List Char) : StandsBefore cs 0 cs := ⟨[], rfl, rfl⟩

theorem drop {mid : List Char} (h : StandsBefore cs pos (mid ++ suf)) : StandsBefore cs (pos + byteLen mid) suf := by
  obtain ⟨pre, rfl, rfl⟩ := h
  exact ⟨pre ++ mid, (List.append_assoc ..).symm, (byteLen_append ..).symm⟩

/-- Before one text only. -/
theorem inj {suf' : List Char} (h : StandsBefore cs pos suf) (h' : StandsBefore cs pos suf') : suf = suf' := by
  obtain ⟨pre, rfl, rfl⟩ := h
  obtain ⟨pre', heq, hlen⟩ := h'
  have hdrop := dropTo_append pre' suf'
  rw [← heq, ← hlen, dropTo_append] at hdrop
  exact Option.some.inj hdrop

theorem next {c : Char} (h : StandsBefore cs pos (c :: suf)) : StandsBefore cs (pos + c.utf8Size) suf := by
  have hdrop : StandsBefore cs (pos + byteLen [c]) suf := drop h
  rwa [byteLen_cons, byteLen_nil, Nat.add_zero] at hdrop

theorem next_ascii {c : Char} (h : StandsBefore cs pos (c :: suf)) (hc : isAscii c = true) :
    StandsBefore cs (pos + 1) suf := utf8Size_of_isAscii hc ▸ h.next

/-- The bytes from the offset on are those of the rest. -/
theorem byte (h : StandsBefore cs pos suf) (i : Nat) : (utf8 cs)[pos + i]? = (utf8 suf)[i]? := by
  obtain ⟨pre, rfl, rfl⟩ := h
  rw [utf8_append, List.getElem?_append_right (by rw [length_utf8]; omega), length_utf8, Nat.add_sub_cancel_left]

theorem length_eq (h : StandsBefore cs pos suf) : (utf8 cs).length = pos + byteLen suf := by
  obtain ⟨pre, rfl, rfl⟩ := h
  rw [length_utf8, byteLen_append]

theorem byteLen_le (h : StandsBefore cs pos suf) : byteLen suf ≤ (utf8 cs).length := by
  rw [h.length_eq]
  exact Nat.le_add_left _ _

theorem lead_eq {c : Char} (h : StandsBefore cs pos (c :: suf)) : (utf8 cs)[pos]? = some (lead c) := by
  obtain ⟨bs, hbs⟩ := encodeChar_eq_cons c
  rw [← Nat.add_zero pos, h.byte, utf8_cons, hbs]
  rfl

theorem eq_none (h : StandsBefore cs pos []) : (utf8 cs)[pos]? = none := by
  rw [← Nat.add_zero pos, h.byte]
  rfl

/-- The byte behind a character of one byte starts the next character. -/
theorem lead_next {c : Char} (h : StandsBefore cs pos (c :: suf)) (hc : isAscii c = true) :
    (utf8 cs)[pos + 1]? = suf.head?.map lead := by
  have hnext := h.next_ascii hc
  cases suf with
  | nil => exact hnext.eq_none
  | cons d suf => exact hnext.lead_eq

/-- The bytes of the character at the offset. -/
theorem byte_mem {c : Char} (h : StandsBefore cs pos (c :: suf)) {i : Nat} (hi : i < c.utf8Size) :
    ∃ b ∈ String.utf8EncodeChar c, (utf8 cs)[pos + i]? = some b := by
  have hlen : i < (String.utf8EncodeChar c).length := String.length_utf8EncodeChar c ▸ hi
  refine ⟨(String.utf8EncodeChar c)[i], List.getElem_mem hlen, ?_⟩
  rw [h.byte, utf8_cons, List.getElem?_append_left hlen, List.getElem?_eq_getElem hlen]

theorem charAt_eq {c : Char} (h : StandsBefore cs pos (c :: suf)) {i : Nat} (hi : i < c.utf8Size) :
    charAt (pos + i) cs = if i = 0 then some c else none := by
  obtain ⟨pre, rfl, rfl⟩ := h
  exact charAt_append pre c suf hi

theorem cut_eq {mid : List Char} (h : StandsBefore cs pos (mid ++ suf)) : cut pos (pos + byteLen mid) cs = some mid := by
  obtain ⟨pre, rfl, rfl⟩ := h
  rw [cut, if_pos (Nat.le_add_right _ _), dropTo_append, Option.bind_some, Nat.add_sub_cancel_left, prefixTo_append]

end StandsBefore

end Text
