import Mathlib.Data.List.Basic

/-!
# UTF-8: the bytes of a string, and reading bytes that need not be a string

`utf8Bytes` writes a string. `ofUtf8?` reads the bytes of a string and nothing else; `ofUtf8Lossy` reads any bytes at all,
what is not UTF-8 becoming the replacement character. Either gives back the string that was written.
-/

namespace Utf8

/-- The bytes of a string. -/
def utf8Bytes (s : String) : List UInt8 := s.toList.flatMap String.utf8EncodeChar

/-- The character that stands for bytes no character starts with. -/
def replacement : Char := Char.ofNat 0xFFFD

/-- The character whose encoding starts the bytes. -/
def firstChar? (bs : List UInt8) : Option Char := bs.toByteArray.utf8DecodeChar? 0

/-- A byte every character of several bytes continues with. -/
def isTail (b : UInt8) : Bool := 0x80 ≤ b && b ≤ 0xBF

/-- The second byte fits the first, of a character of three or four bytes. -/
def secondFits (b c : UInt8) : Bool :=
  if b = 0xE0 then 0xA0 ≤ c && c ≤ 0xBF
  else if b = 0xED then 0x80 ≤ c && c ≤ 0x9F
  else if b = 0xF0 then 0x90 ≤ c && c ≤ 0xBF
  else if b = 0xF4 then 0x80 ≤ c && c ≤ 0x8F
  else 0xE1 ≤ b && b ≤ 0xF3 && isTail c

/-- The count of bytes that one replacement character stands for, where no character starts the bytes: the first byte and
what of it could still have become a character. -/
def brokenLen : List UInt8 → Nat
  | b :: c :: d :: _ =>
    if secondFits b c then (if 0xF0 ≤ b && isTail d then 3 else 2) else 1
  | [b, c] => if secondFits b c then 2 else 1
  | _ => 1

theorem brokenLen_pos (bs : List UInt8) : 0 < brokenLen bs := by
  unfold brokenLen
  split
  · split
    · split <;> decide
    · decide
  · split <;> decide
  · decide

/-- The characters of any bytes, a replacement character for each broken piece. -/
def lossyChars : List UInt8 → List Char
  | [] => []
  | b :: bs =>
    match firstChar? (b :: bs) with
    | some c => c :: lossyChars ((b :: bs).drop c.utf8Size)
    | none => replacement :: lossyChars ((b :: bs).drop (brokenLen (b :: bs)))
termination_by bs => bs.length
decreasing_by
  · have := c.utf8Size_pos
    simp only [List.length_drop, List.length_cons]
    omega
  · have := brokenLen_pos (b :: bs)
    simp only [List.length_drop, List.length_cons]
    omega

/-- The string read from any bytes. -/
def ofUtf8Lossy (bs : List UInt8) : String := String.ofList (lossyChars bs)

/-- The string with these bytes, if they are the bytes of a string. -/
def ofUtf8? (bs : List UInt8) : Option String := String.fromUTF8? bs.toByteArray

/-! ## Reading what was written -/

theorem toByteArray_utf8Bytes (s : String) : (utf8Bytes s).toByteArray = s.toByteArray := String.utf8Encode_toList

@[simp] theorem ofUtf8?_utf8Bytes (s : String) : ofUtf8? (utf8Bytes s) = some s := by
  unfold ofUtf8? String.fromUTF8?
  rw [toByteArray_utf8Bytes, dif_pos s.isValidUTF8]
  rfl

/-- A string that was read has the bytes it was read from. -/
theorem utf8Bytes_of_ofUtf8? {bs : List UInt8} {s : String} (h : ofUtf8? bs = some s) : utf8Bytes s = bs := by
  have hbytes : (utf8Bytes s).toByteArray = bs.toByteArray := by
    rw [toByteArray_utf8Bytes]
    unfold ofUtf8? String.fromUTF8? at h
    split at h
    · exact congrArg String.toByteArray (Option.some.inj h).symm
    · cases h
  have hlists := congrArg (fun b : ByteArray => b.data.toList) hbytes
  simpa only [List.toList_data_toByteArray] using hlists

theorem firstChar?_append (c : Char) (bs : List UInt8) : firstChar? (String.utf8EncodeChar c ++ bs) = some c := by
  unfold firstChar?
  rw [List.toByteArray_append]
  exact ByteArray.utf8DecodeChar?_utf8EncodeChar_append

theorem lossyChars_append (c : Char) (bs : List UInt8) :
    lossyChars (String.utf8EncodeChar c ++ bs) = c :: lossyChars bs := by
  have hfirst := firstChar?_append c bs
  have hlen : (String.utf8EncodeChar c).length = c.utf8Size := String.length_utf8EncodeChar c
  cases henc : String.utf8EncodeChar c ++ bs with
  | nil =>
    have hpos := c.utf8Size_pos
    rw [List.append_eq_nil_iff] at henc
    rw [henc.1] at hlen
    simp only [List.length_nil] at hlen
    omega
  | cons b rest =>
    rw [henc] at hfirst
    rw [lossyChars, hfirst]
    simp only
    rw [← henc, ← hlen, List.drop_left]

theorem lossyChars_flatMap (cs : List Char) : lossyChars (cs.flatMap String.utf8EncodeChar) = cs := by
  induction cs with
  | nil => rw [List.flatMap_nil, lossyChars]
  | cons c cs ih => rw [List.flatMap_cons, lossyChars_append, ih]

/-- The bytes of a string read back as that string. -/
@[simp] theorem ofUtf8Lossy_utf8Bytes (s : String) : ofUtf8Lossy (utf8Bytes s) = s := by
  unfold ofUtf8Lossy utf8Bytes
  rw [lossyChars_flatMap, String.ofList_toList]

end Utf8
