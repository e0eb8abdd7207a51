import PgEddy.Lemmas.PropCells

/-!
# Skipping cells of the property store

A value that `encodeValue` wrote is as long for `skipValue` as it is for `decodeValue`, as long as its strings, lists and maps
are short enough for their lengths.
-/

namespace PgEddy

open ByteBuffer Utf8 Binary64 SortedMap

variable {data : List UInt8} {pos : Nat} {skipAt skipAt' : Nat → Nat}

/-! ## Depth -/

theorem skipItems_congr {count : Nat} (h : ∀ p, pos ≤ p → skipAt p = skipAt' p) :
    skipItems skipAt count pos = skipItems skipAt' count pos := by
  induction count generalizing pos with
  | zero => rfl
  | succ count ih =>
    unfold skipItems
    rw [h pos (Nat.le_refl _), ih fun p hp => h p (Nat.le_trans (Nat.le_add_right _ _) hp)]

theorem skipFields_congr {count : Nat} (h : ∀ p, pos ≤ p → skipAt p = skipAt' p) :
    skipFields skipAt count pos = skipFields skipAt' count pos := by
  induction count generalizing pos with
  | zero => rfl
  | succ count ih =>
    unfold skipFields
    simp only
    rw [h pos (Nat.le_refl _), h _ (Nat.le_add_right _ _), ih fun p hp => h p (by omega)]

/-- The length of a cell only depends on the cells that start after it. -/
theorem skipCell_congr (h : ∀ p, pos < p → skipAt p = skipAt' p) : skipCell data skipAt pos = skipCell data skipAt' pos := by
  have hin : ∀ p, pos + 1 + 4 ≤ p → skipAt p = skipAt' p := fun p hp => h p (by omega)
  unfold skipCell
  simp only [skipItems_congr hin, skipFields_congr hin]

theorem skipCell_end (h : data.length ≤ pos) : skipCell data skipAt pos = 0 := by
  unfold skipCell
  rw [List.getElem?_eq_none h]

theorem skipDepth_enough {d d' : Nat} (h : data.length - pos ≤ d) (h' : data.length - pos ≤ d') :
    skipDepth data d pos = skipDepth data d' pos := by
  induction d generalizing d' pos with
  | zero =>
    cases d' with
    | zero => rfl
    | succ d' => rw [skipDepth, skipDepth, skipCell_end (by omega)]
  | succ d ih =>
    cases d' with
    | zero => rw [skipDepth, skipDepth, skipCell_end (by omega)]
    | succ d' =>
      rw [skipDepth, skipDepth]
      by_cases hpos : data.length ≤ pos
      · rw [skipCell_end hpos, skipCell_end hpos]
      · exact skipCell_congr fun p hp => ih (by omega) (by omega)

/-- A value is a cell whose inner cells are values. -/
theorem skipValue_eq (data : List UInt8) (pos : Nat) : skipValue data pos = skipCell data (skipValue data) pos := by
  unfold skipValue
  rw [@skipDepth_enough data pos (data.length - pos) (data.length - pos + 1) (Nat.le_refl _) (Nat.le_succ _), skipDepth]
  exact skipCell_congr fun p hp => skipDepth_enough (by omega) (Nat.le_refl _)

/-! ## What is written is skipped -/

section

variable (skipAt)

theorem skipCell_fixed {tag : UInt8} {n : Nat} (h : data[pos]? = some tag)
    (htag : (tag, n) ∈ [(tagNull, 1), (tagBool, 2), (tagInteger, 9), (tagFloat, 9)]) : skipCell data skipAt pos = n := by
  unfold skipCell
  rw [h]
  simp only [List.mem_cons, Prod.mk.injEq, List.not_mem_nil, or_false] at htag
  rcases htag with ⟨rfl, rfl⟩ | ⟨rfl, rfl⟩ | ⟨rfl, rfl⟩ | ⟨rfl, rfl⟩ <;> rfl

theorem skipCell_strShort {len : UInt8} (h : data[pos]? = some tagStrShort) (hlen : data[pos + 1]? = some len) :
    skipCell data skipAt pos = 2 + len.toNat := by
  unfold skipCell
  rw [h]
  dsimp only
  rw [hlen]
  rfl

theorem skipCell_strLong {len : Nat} (h : data[pos]? = some tagStrLong) (hin : pos + 1 + 4 ≤ data.length)
    (hlen : leNat (slice data (pos + 1) 4) = len) : skipCell data skipAt pos = 5 + len := by
  unfold skipCell
  rw [h]
  change (if pos + 1 + 4 ≤ data.length then 5 + leNat (slice data (pos + 1) 4) else 1) = _
  rw [if_pos hin, hlen]

theorem skipCell_list {count : Nat} (h : data[pos]? = some tagList) (hin : pos + 1 + 4 ≤ data.length)
    (hcount : leNat (slice data (pos + 1) 4) = count) :
    skipCell data skipAt pos = skipItems skipAt count (pos + 1 + 4) - pos := by
  unfold skipCell
  rw [h]
  change (if pos + 1 + 4 ≤ data.length then skipItems skipAt (leNat (slice data (pos + 1) 4)) (pos + 1 + 4) - pos else 1) = _
  rw [if_pos hin, hcount]

theorem skipCell_map {count : Nat} (h : data[pos]? = some tagMap) (hin : pos + 1 + 4 ≤ data.length)
    (hcount : leNat (slice data (pos + 1) 4) = count) :
    skipCell data skipAt pos = skipFields skipAt count (pos + 1 + 4) - pos := by
  unfold skipCell
  rw [h]
  change (if pos + 1 + 4 ≤ data.length then skipFields skipAt (leNat (slice data (pos + 1) 4)) (pos + 1 + 4) - pos else 1) = _
  rw [if_pos hin, hcount]

end

theorem skipValue_encodeMapKey {key : String} (hfit : (utf8Bytes key).length < 2 ^ 32)
    (h : Stands data pos (encodeMapKey key)) : skipValue data pos = (encodeMapKey key).length := by
  rw [skipValue_eq]
  unfold encodeMapKey at h ⊢
  simp only at h ⊢
  split at h
  · rename_i hshort
    have hlen : (UInt8.ofNat (utf8Bytes key).length).toNat = (utf8Bytes key).length := UInt8.toNat_ofNat_of_lt' (by
      change _ < 256
      omega)
    rw [skipCell_strShort _ h.head h.tail.head, hlen, if_pos hshort]
    simp only [List.length_append, List.length_cons, List.length_nil]
  · rename_i hlong
    have hcell : Stands data (pos + 1) (leBytes 4 (utf8Bytes key).length ++ utf8Bytes key) := h.tail
    obtain ⟨hlen, hin⟩ := leNat_stands hfit hcell.left
    rw [skipCell_strLong _ h.head hin hlen, if_neg hlong]
    simp only [List.length_append, List.length_cons, List.length_nil, length_leBytes]

theorem skipValue_encodeNumber {n : JsonNumber} (h : Stands data pos (encodeNumber n)) :
    skipValue data pos = (encodeNumber n).length := by
  rw [skipValue_eq]
  unfold encodeNumber at h ⊢
  cases hint : n.asI64 with
  | some i =>
    rw [hint] at h
    rw [skipCell_fixed (n := 9) _ h.head (by simp)]
    simp only [List.length_cons, length_i64ToLe]
  | none =>
    rw [hint] at h
    cases hfloat : n.asF64 with
    | some f =>
      simp only [hfloat] at h
      rw [skipCell_fixed (n := 9) _ h.head (by simp)]
      simp only [List.length_cons, length_leBytes]
    | none =>
      simp only [hfloat] at h
      rw [skipCell_fixed (n := 1) _ h.head (by simp)]
      rfl

theorem skipItems_encodeItems {items : List Json}
    (hitem : ∀ v ∈ items, ∀ p, Stands data p (encodeValue v) → skipValue data p = (encodeValue v).length)
    (h : Stands data pos (encodeItems items)) :
    skipItems (skipValue data) items.length pos = pos + (encodeItems items).length := by
  induction items generalizing pos with
  | nil => rfl
  | cons v items ih =>
    have hv := hitem v List.mem_cons_self pos h.left
    have hrest := ih (fun w hw => hitem w (List.mem_cons_of_mem _ hw)) h.right
    have hpos := length_encodeValue_pos v
    rw [List.length_cons, skipItems, hv, if_neg (by omega), hrest, encodeItems, List.length_append, Nat.add_assoc]

theorem skipFields_encodeFields {fields : List (String × Json)} (hkey : ∀ f ∈ fields, (utf8Bytes f.1).length < 2 ^ 32)
    (hvalue : ∀ f ∈ fields, ∀ p, Stands data p (encodeValue f.2) → skipValue data p = (encodeValue f.2).length)
    (h : Stands data pos (encodeFields fields)) :
    skipFields (skipValue data) fields.length pos = pos + (encodeFields fields).length := by
  induction fields generalizing pos with
  | nil => rfl
  | cons f fields ih =>
    obtain ⟨k, v⟩ := f
    have hcell : Stands data pos (encodeMapKey k ++ encodeValue v) := h.left
    have hk : skipValue data pos = (encodeMapKey k).length := skipValue_encodeMapKey (hkey _ List.mem_cons_self) hcell.left
    have hv : skipValue data (pos + (encodeMapKey k).length) = (encodeValue v).length :=
      hvalue _ List.mem_cons_self _ hcell.right
    have hkpos := length_encodeMapKey_pos k
    have hvpos := length_encodeValue_pos v
    have hright := h.right
    rw [List.length_append, ← Nat.add_assoc] at hright
    have hrest := ih (fun g hg => hkey g (List.mem_cons_of_mem _ hg)) (fun g hg => hvalue g (List.mem_cons_of_mem _ hg)) hright
    rw [List.length_cons, skipFields, hk]
    simp only
    rw [hv, if_neg (by omega), if_neg (by omega), hrest, encodeFields, List.length_append, List.length_append]
    omega

/-- A value of short strings, lists and maps is skipped as a whole, wherever its bytes stand. -/
theorem skipValue_encodeValue {v : Json} (hfit : v.Every Json.SizesFit) :
    ∀ pos, Stands data pos (encodeValue v) → skipValue data pos = (encodeValue v).length := by
  induction v using Json.tree_induction with
  | null =>
    intro pos h
    rw [skipValue_eq, skipCell_fixed (n := 1) _ h.head (by simp)]
    rfl
  | bool b =>
    intro pos h
    rw [skipValue_eq, skipCell_fixed (n := 2) _ h.head (by simp)]
    rfl
  | number n =>
    intro pos h
    exact skipValue_encodeNumber h
  | string s =>
    intro pos h
    exact skipValue_encodeMapKey hfit.1 h
  | array items ih =>
    intro pos h
    rw [Json.every_array] at hfit
    have hcell : Stands data (pos + 1) (leBytes 4 items.length ++ encodeItems items) := h.tail
    obtain ⟨hcount, hin⟩ := leNat_stands hfit.1.2 hcell.left
    have hbytes := hcell.right
    rw [length_leBytes] at hbytes
    rw [skipValue_eq, skipCell_list _ h.head hin hcount,
      skipItems_encodeItems (fun v hv => ih v hv (hfit.2 v hv)) hbytes, encodeValue]
    simp only [List.length_append, List.length_cons, List.length_nil, length_leBytes]
    omega
  | object fields ih =>
    intro pos h
    rw [Json.every_object] at hfit
    have hcell : Stands data (pos + 1) (leBytes 4 fields.length ++ encodeFields fields) := h.tail
    obtain ⟨hcount, hin⟩ := leNat_stands hfit.1.2 hcell.left
    have hbytes := hcell.right
    rw [length_leBytes] at hbytes
    rw [skipValue_eq, skipCell_map _ h.head hin hcount,
      skipFields_encodeFields hfit.1.1 (fun f hf => ih f hf (hfit.2 f hf)) hbytes, encodeValue]
    simp only [List.length_append, List.length_cons, List.length_nil, length_leBytes]
    omega

end PgEddy
