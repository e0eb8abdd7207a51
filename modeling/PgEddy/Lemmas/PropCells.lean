import PgEddy.PropStore

/-!
# Cells of the property store

Statements about `decodeValue`: that the depth it reads to is enough (`decodeValue_eq`), that it reads back what
`encodeValue` wrote wherever that stands (`decodeValue_encodeValue`), and what every value it reads is like
(`readable_decodeValue`).
-/

namespace PgEddy

open ByteBuffer Utf8 Binary64 SortedMap

/-! ## Depth -/

variable {data : List UInt8} {pos : Nat} {decodeAt decodeAt' : Nat → Json × Nat}

/-- The items of a list only depend on what is read from its first item on. -/
theorem decodeItems_congr {count : Nat} (h : ∀ p, pos ≤ p → decodeAt p = decodeAt' p) :
    decodeItems decodeAt count pos = decodeItems decodeAt' count pos := by
  induction count generalizing pos with
  | zero => rfl
  | succ count ih =>
    unfold decodeItems
    rw [h pos (Nat.le_refl _)]
    simp only
    split
    · rfl
    · rw [ih fun p hp => h p (Nat.le_trans (Nat.le_add_right _ _) hp)]

theorem decodeFields_congr {count : Nat} {obj : List (String × Json)} (h : ∀ p, pos ≤ p → decodeAt p = decodeAt' p) :
    decodeFields decodeAt count pos obj = decodeFields decodeAt' count pos obj := by
  induction count generalizing pos obj with
  | zero => rfl
  | succ count ih =>
    unfold decodeFields
    rw [h pos (Nat.le_refl _)]
    simp only
    rw [h _ (Nat.le_add_right _ _)]
    split
    · rfl
    · exact ih fun p hp => h p (by omega)

/-- A cell only depends on the cells that start after it. -/
theorem decodeCell_congr (h : ∀ p, pos < p → decodeAt p = decodeAt' p) :
    decodeCell data decodeAt pos = decodeCell data decodeAt' pos := by
  have hin : ∀ p, pos + 1 + 4 ≤ p → decodeAt p = decodeAt' p := fun p hp => h p (by omega)
  unfold decodeCell
  simp only [decodeItems_congr hin, decodeFields_congr hin]

theorem decodeCell_end (h : data.length ≤ pos) : decodeCell data decodeAt pos = (.null, 0) := by
  unfold decodeCell
  rw [List.getElem?_eq_none h]

/-- Reading deeper than the bytes that are left changes nothing. -/
theorem decodeDepth_enough {d d' : Nat} (h : data.length - pos ≤ d) (h' : data.length - pos ≤ d') :
    decodeDepth data d pos = decodeDepth data d' pos := by
  induction d generalizing d' pos with
  | zero =>
    cases d' with
    | zero => rfl
    | succ d' => rw [decodeDepth, decodeDepth, decodeCell_end (by omega)]
  | succ d ih =>
    cases d' with
    | zero => rw [decodeDepth, decodeDepth, decodeCell_end (by omega)]
    | succ d' =>
      rw [decodeDepth, decodeDepth]
      by_cases hpos : data.length ≤ pos
      · rw [decodeCell_end hpos, decodeCell_end hpos]
      · exact decodeCell_congr fun p hp => ih (by omega) (by omega)

/-- A value is a cell whose inner cells are values. -/
theorem decodeValue_eq (data : List UInt8) (pos : Nat) : decodeValue data pos = decodeCell data (decodeValue data) pos := by
  unfold decodeValue
  rw [@decodeDepth_enough data pos (data.length - pos) (data.length - pos + 1) (Nat.le_refl _) (Nat.le_succ _), decodeDepth]
  exact decodeCell_congr fun p hp => decodeDepth_enough (by omega) (Nat.le_refl _)

/-! ## What is written reads back -/

namespace Json

/-- The strings of a value, and the keys of an object, are shorter than 2 ^ 32 bytes. -/
def StringsFit : Json → Prop
  | .string s => (utf8Bytes s).length < 2 ^ 32
  | .object fields => ∀ f ∈ fields, (utf8Bytes f.1).length < 2 ^ 32
  | _ => True

/-- A list or a map has fewer than 2 ^ 32 entries. -/
def CountsFit : Json → Prop
  | .array items => items.length < 2 ^ 32
  | .object fields => fields.length < 2 ^ 32
  | _ => True

/-- A number that is an integer is a signed one. -/
def IntegersFit : Json → Prop
  | .number n => n.Signed
  | _ => True

instance : DecidablePred StringsFit
  | .string s => inferInstanceAs (Decidable ((utf8Bytes s).length < 2 ^ 32))
  | .object fields => inferInstanceAs (Decidable (∀ f ∈ fields, (utf8Bytes f.1).length < 2 ^ 32))
  | .null | .bool _ | .number _ | .array _ => inferInstanceAs (Decidable True)

instance : DecidablePred CountsFit
  | .array items => inferInstanceAs (Decidable (items.length < 2 ^ 32))
  | .object fields => inferInstanceAs (Decidable (fields.length < 2 ^ 32))
  | .null | .bool _ | .number _ | .string _ => inferInstanceAs (Decidable True)

instance : DecidablePred IntegersFit
  | .number n => inferInstanceAs (Decidable n.Signed)
  | .null | .bool _ | .string _ | .array _ | .object _ => inferInstanceAs (Decidable True)

end Json

/-- The value that a number reads back as. -/
def readBackNumber (n : JsonNumber) : Json :=
  match n.asI64 with
  | some i => .number (.ofI64 i)
  | none =>
    match n.asF64 with
    | some f => jsonOfFloat f
    | none => .null

mutual

/-- The value that a value reads back as: integers that are not signed have become floats. -/
def readBack : Json → Json
  | .null => .null
  | .bool b => .bool b
  | .number n => readBackNumber n
  | .string s => .string s
  | .array items => .array (readBackItems items)
  | .object fields => .object (readBackFields fields)

def readBackItems : List Json → List Json
  | [] => []
  | v :: items => readBack v :: readBackItems items

def readBackFields : List (String × Json) → List (String × Json)
  | [] => []
  | (k, v) :: fields => (k, readBack v) :: readBackFields fields

end

theorem readBackItems_eq_map (items : List Json) : readBackItems items = items.map readBack := by
  induction items with
  | nil => rfl
  | cons v items ih => rw [readBackItems, ih, List.map_cons]

theorem readBackFields_eq_map (fields : List (String × Json)) :
    readBackFields fields = fields.map fun f => (f.1, readBack f.2) := by
  induction fields with
  | nil => rfl
  | cons f fields ih => rw [readBackFields, ih, List.map_cons]

theorem readBackNumber_of_signed {n : JsonNumber} (h : n.Signed) : readBackNumber n = .number n := by
  unfold readBackNumber
  cases n with
  | posInt n =>
    have hlt : n.toNat < 2 ^ 63 := h
    simp only [JsonNumber.asI64, if_pos hlt, JsonNumber.ofI64_toInt64 hlt]
  | negInt i hi =>
    have hnum : JsonNumber.ofI64 i = .negInt i hi := dif_pos hi
    simp only [JsonNumber.asI64, hnum]
  | float f hf =>
    simp only [JsonNumber.asI64, JsonNumber.asF64, jsonOfFloat, JsonNumber.ofF64?, dif_pos hf, Option.getD_some]

/-- A value whose integers are signed reads back as itself. -/
theorem readBack_of_integersFit {v : Json} (h : v.Every Json.IntegersFit) : readBack v = v := by
  induction v using Json.tree_induction with
  | null => rfl
  | bool b => rfl
  | number n => exact readBackNumber_of_signed h
  | string s => rfl
  | array items ih =>
    rw [Json.every_array] at h
    rw [readBack, readBackItems_eq_map, List.map_congr_left fun v hv => ih v hv (h.2 v hv), List.map_id']
  | object fields ih =>
    rw [Json.every_object] at h
    rw [readBack, readBackFields_eq_map, List.map_congr_left fun f hf => (by rw [ih f hf (h.2 f hf)]), List.map_id']

/-- Reading back keeps the order of the keys. -/
theorem sorted_readBackFields {fields : List (String × Json)} : Sorted (readBackFields fields) ↔ Sorted fields := by
  rw [readBackFields_eq_map]
  exact List.pairwise_map

theorem length_encodeMapKey_pos (key : String) : 0 < (encodeMapKey key).length := by
  unfold encodeMapKey
  simp only
  split <;> simp

theorem length_encodeValue_pos (v : Json) : 0 < (encodeValue v).length := by
  cases v with
  | null => simp [encodeValue]
  | bool b => simp [encodeValue]
  | number n =>
    unfold encodeValue encodeNumber
    split
    · simp
    · split <;> simp
  | string s =>
    unfold encodeValue
    exact length_encodeMapKey_pos s
  | array items => simp [encodeValue]
  | object fields => simp [encodeValue]

/-- A cell whose bytes are all there. -/
theorem readCell_stands {start n : Nat} {bs : List UInt8} {value : List UInt8 → Json} {consumed : Nat}
    (h : Stands data start bs) (hn : bs.length = n) : readCell data start n value consumed = (value bs, consumed) := by
  subst hn
  unfold readCell
  rw [if_pos h.length_le, h.slice]

/-! One lemma for each tag that `encodeValue` writes. -/

section

variable (decodeAt)

theorem decodeCell_null (h : data[pos]? = some tagNull) : decodeCell data decodeAt pos = (.null, 1) := by
  unfold decodeCell
  rw [h]
  rfl

theorem decodeCell_bool {b : UInt8} (h : data[pos]? = some tagBool) (hb : data[pos + 1]? = some b) :
    decodeCell data decodeAt pos = (.bool (b != 0), 2) := by
  unfold decodeCell
  rw [h]
  dsimp only
  rw [hb]
  rfl

theorem decodeCell_integer (h : data[pos]? = some tagInteger) :
    decodeCell data decodeAt pos = readCell data (pos + 1) 8 (fun bs => .number (.ofI64 (i64OfLe bs))) 9 := by
  unfold decodeCell
  rw [h]
  rfl

theorem decodeCell_float (h : data[pos]? = some tagFloat) :
    decodeCell data decodeAt pos
      = readCell data (pos + 1) 8 (fun bs => jsonOfFloat (.ofBits (UInt64.ofNat (leNat bs)))) 9 := by
  unfold decodeCell
  rw [h]
  rfl

theorem decodeCell_strShort {len : UInt8} (h : data[pos]? = some tagStrShort) (hlen : data[pos + 1]? = some len) :
    decodeCell data decodeAt pos
      = readCell data (pos + 1 + 1) len.toNat (fun bs => .string (ofUtf8Lossy bs)) (2 + len.toNat) := by
  unfold decodeCell
  rw [h]
  dsimp only
  rw [hlen]
  rfl

theorem decodeCell_strLong {len : Nat} (h : data[pos]? = some tagStrLong) (hin : pos + 1 + 4 ≤ data.length)
    (hlen : leNat (slice data (pos + 1) 4) = len) :
    decodeCell data decodeAt pos
      = readCell data (pos + 1 + 4) len (fun bs => .string (ofUtf8Lossy bs)) (5 + len) := by
  unfold decodeCell
  rw [h]
  change (if pos + 1 + 4 ≤ data.length then readCell data (pos + 1 + 4) (leNat (slice data (pos + 1) 4))
    (fun bs => .string (ofUtf8Lossy bs)) (5 + leNat (slice data (pos + 1) 4)) else (.null, 1)) = _
  rw [if_pos hin, hlen]

theorem decodeCell_list {count : Nat} (h : data[pos]? = some tagList) (hin : pos + 1 + 4 ≤ data.length)
    (hcount : leNat (slice data (pos + 1) 4) = count) :
    decodeCell data decodeAt pos
      = (.array (decodeItems decodeAt count (pos + 1 + 4)).1, (decodeItems decodeAt count (pos + 1 + 4)).2 - pos) := by
  unfold decodeCell
  rw [h]
  change (if pos + 1 + 4 ≤ data.length then
    (Json.array (decodeItems decodeAt (leNat (slice data (pos + 1) 4)) (pos + 1 + 4)).1,
      (decodeItems decodeAt (leNat (slice data (pos + 1) 4)) (pos + 1 + 4)).2 - pos) else (.null, 1)) = _
  rw [if_pos hin, hcount]

theorem decodeCell_map {count : Nat} (h : data[pos]? = some tagMap) (hin : pos + 1 + 4 ≤ data.length)
    (hcount : leNat (slice data (pos + 1) 4) = count) :
    decodeCell data decodeAt pos
      = (.object (decodeFields decodeAt count (pos + 1 + 4) []).1,
          (decodeFields decodeAt count (pos + 1 + 4) []).2 - pos) := by
  unfold decodeCell
  rw [h]
  change (if pos + 1 + 4 ≤ data.length then
    (Json.object (decodeFields decodeAt (leNat (slice data (pos + 1) 4)) (pos + 1 + 4) []).1,
      (decodeFields decodeAt (leNat (slice data (pos + 1) 4)) (pos + 1 + 4) []).2 - pos) else (.null, 1)) = _
  rw [if_pos hin, hcount]

end

/-- A length or a count of four bytes, below 2 ^ 32. -/
theorem leNat_stands {n : Nat} (hn : n < 2 ^ 32) {off : Nat} (h : Stands data off (leBytes 4 n)) :
    leNat (slice data off 4) = n ∧ off + 4 ≤ data.length := by
  have hs := h.slice
  have hle := h.length_le
  rw [length_leBytes] at hs hle
  rw [hs, leNat_leBytes_of_lt _ _ (by omega)]
  exact ⟨rfl, hle⟩

theorem decodeValue_encodeMapKey {key : String} (hfit : (utf8Bytes key).length < 2 ^ 32)
    (h : Stands data pos (encodeMapKey key)) : decodeValue data pos = (.string key, (encodeMapKey key).length) := by
  rw [decodeValue_eq]
  unfold encodeMapKey at h ⊢
  simp only at h ⊢
  split at h
  · rename_i hshort
    have hlen : (UInt8.ofNat (utf8Bytes key).length).toNat = (utf8Bytes key).length := UInt8.toNat_ofNat_of_lt' (by
      change _ < 256
      omega)
    have hbytes : Stands data (pos + 1 + 1) (utf8Bytes key) := h.tail.tail
    rw [decodeCell_strShort _ h.head h.tail.head, readCell_stands hbytes hlen.symm, ofUtf8Lossy_utf8Bytes, hlen,
      if_pos hshort]
    simp only [List.length_append, List.length_cons, List.length_nil]
  · rename_i hlong
    have hcell : Stands data (pos + 1) (leBytes 4 (utf8Bytes key).length ++ utf8Bytes key) := h.tail
    obtain ⟨hlen, hin⟩ := leNat_stands hfit hcell.left
    have hbytes := hcell.right
    rw [length_leBytes] at hbytes
    rw [decodeCell_strLong _ h.head hin hlen, readCell_stands hbytes rfl, ofUtf8Lossy_utf8Bytes, if_neg hlong]
    simp only [List.length_append, List.length_cons, List.length_nil, length_leBytes]

theorem decodeValue_encodeNumber {n : JsonNumber} (h : Stands data pos (encodeNumber n)) :
    decodeValue data pos = (readBackNumber n, (encodeNumber n).length) := by
  rw [decodeValue_eq]
  unfold encodeNumber at h ⊢
  unfold readBackNumber
  cases hint : n.asI64 with
  | some i =>
    rw [hint] at h
    rw [decodeCell_integer _ h.head, readCell_stands h.tail (length_i64ToLe _), i64OfLe_i64ToLe]
    simp only [List.length_cons, length_i64ToLe]
  | none =>
    rw [hint] at h
    cases hfloat : n.asF64 with
    | some f =>
      simp only [hfloat] at h
      have hbits : leNat (leBytes 8 f.bits.toNat) = f.bits.toNat := leNat_leBytes_of_lt _ _ f.bits.toNat_lt
      rw [decodeCell_float _ h.head, readCell_stands h.tail (length_leBytes _ _), hbits, UInt64.ofNat_toNat, F64.ofBits_bits]
      simp only [List.length_cons, length_leBytes]
    | none =>
      simp only [hfloat] at h
      rw [decodeCell_null _ h.head]
      rfl

/-- Items that are read one by one are read as a list. -/
theorem decodeItems_encodeItems {items : List Json}
    (hitem : ∀ v ∈ items, ∀ p, Stands data p (encodeValue v) → decodeValue data p = (readBack v, (encodeValue v).length))
    (h : Stands data pos (encodeItems items)) :
    decodeItems (decodeValue data) items.length pos = (readBackItems items, pos + (encodeItems items).length) := by
  induction items generalizing pos with
  | nil => rfl
  | cons v items ih =>
    have hv := hitem v List.mem_cons_self pos h.left
    have hrest := ih (fun w hw => hitem w (List.mem_cons_of_mem _ hw)) h.right
    have hpos := length_encodeValue_pos v
    rw [List.length_cons, decodeItems, hv]
    simp only
    rw [if_neg (by omega), hrest, encodeItems, List.length_append, Nat.add_assoc]
    rfl

/-- Fields in the order of their keys that are read one by one are read as a map. -/
theorem decodeFields_encodeFields {fields done : List (String × Json)} (hsorted : Sorted (done ++ readBackFields fields))
    (hkey : ∀ f ∈ fields, (utf8Bytes f.1).length < 2 ^ 32)
    (hvalue : ∀ f ∈ fields, ∀ p, Stands data p (encodeValue f.2) →
      decodeValue data p = (readBack f.2, (encodeValue f.2).length))
    (h : Stands data pos (encodeFields fields)) :
    decodeFields (decodeValue data) fields.length pos done =
      (done ++ readBackFields fields, pos + (encodeFields fields).length) := by
  induction fields generalizing pos done with
  | nil => rw [readBackFields, List.append_nil]; rfl
  | cons f fields ih =>
    obtain ⟨k, v⟩ := f
    have hcell : Stands data pos (encodeMapKey k ++ encodeValue v) := h.left
    have hk := decodeValue_encodeMapKey (hkey _ List.mem_cons_self) hcell.left
    have hv := hvalue _ List.mem_cons_self _ hcell.right
    have hkpos := length_encodeMapKey_pos k
    have hvpos := length_encodeValue_pos v
    have hnext : done ++ readBackFields ((k, v) :: fields) = done ++ [(k, readBack v)] ++ readBackFields fields := by
      rw [List.append_assoc]
      rfl
    have hright := h.right
    rw [List.length_append, ← Nat.add_assoc] at hright
    have hrest := ih (hnext ▸ hsorted) (fun g hg => hkey g (List.mem_cons_of_mem _ hg))
      (fun g hg => hvalue g (List.mem_cons_of_mem _ hg)) hright
    rw [List.length_cons, decodeFields, hk]
    simp only
    rw [hv]
    simp only [keyOf]
    rw [if_neg (by omega), Sorted.insert_next hsorted, hrest, hnext, encodeFields, List.length_append, List.length_append]
    simp only [Prod.mk.injEq, true_and]
    omega

namespace Json

/-- The strings, lists and maps of a value are short enough for lengths of four bytes. -/
def SizesFit (v : Json) : Prop := v.StringsFit ∧ v.CountsFit

instance : DecidablePred SizesFit := fun v => inferInstanceAs (Decidable (v.StringsFit ∧ v.CountsFit))

/-- The conditions that make a value its own reading. -/
def Storable (v : Json) : Prop := v.StringsFit ∧ v.CountsFit ∧ v.IntegersFit

instance : DecidablePred Storable := fun v =>
  inferInstanceAs (Decidable (v.StringsFit ∧ v.CountsFit ∧ v.IntegersFit))

end Json

/-- A value of short strings, lists and maps is read as a whole from its bytes, wherever they stand. -/
theorem decodeValue_readBack {v : Json} (hord : v.Ordered) (hfit : v.Every Json.SizesFit) :
    ∀ pos, Stands data pos (encodeValue v) → decodeValue data pos = (readBack v, (encodeValue v).length) := by
  induction v using Json.tree_induction with
  | null =>
    intro pos h
    rw [decodeValue_eq, decodeCell_null _ h.head]
    rfl
  | bool b =>
    intro pos h
    rw [decodeValue_eq, decodeCell_bool _ h.head h.tail.head]
    cases b <;> rfl
  | number n =>
    intro pos h
    exact decodeValue_encodeNumber h
  | string s =>
    intro pos h
    exact decodeValue_encodeMapKey hfit.1 h
  | array items ih =>
    intro pos h
    unfold Json.Ordered at hord ih
    rw [Json.every_array] at hord hfit
    have hcell : Stands data (pos + 1) (leBytes 4 items.length ++ encodeItems items) := h.tail
    obtain ⟨hcount, hin⟩ := leNat_stands hfit.1.2 hcell.left
    have hbytes := hcell.right
    rw [length_leBytes] at hbytes
    have hitems := decodeItems_encodeItems (fun v hv => ih v hv (hord.2 v hv) (hfit.2 v hv)) hbytes
    rw [decodeValue_eq, decodeCell_list _ h.head hin hcount, hitems, encodeValue, readBack]
    simp only [List.length_append, List.length_cons, List.length_nil, length_leBytes, Prod.mk.injEq, true_and]
    omega
  | object fields ih =>
    intro pos h
    unfold Json.Ordered at hord ih
    rw [Json.every_object] at hord hfit
    have hcell : Stands data (pos + 1) (leBytes 4 fields.length ++ encodeFields fields) := h.tail
    obtain ⟨hcount, hin⟩ := leNat_stands hfit.1.2 hcell.left
    have hbytes := hcell.right
    rw [length_leBytes] at hbytes
    have hfields := @decodeFields_encodeFields data _ fields [] (sorted_readBackFields.mpr hord.1) hfit.1.1
      (fun f hf => ih f hf (hord.2 f hf) (hfit.2 f hf)) hbytes
    rw [decodeValue_eq, decodeCell_map _ h.head hin hcount, hfields, encodeValue, List.nil_append, readBack]
    simp only [List.length_append, List.length_cons, List.length_nil, length_leBytes, Prod.mk.injEq, true_and]
    omega

/-- A storable value reads back from its bytes, wherever they stand. -/
theorem decodeValue_encodeValue {v : Json} (hord : v.Ordered) (hfit : v.Every Json.Storable) :
    ∀ pos, Stands data pos (encodeValue v) → decodeValue data pos = (v, (encodeValue v).length) := by
  intro pos h
  obtain ⟨hstrings, hrest⟩ := (Json.every_and v).mp hfit
  obtain ⟨hcounts, hintegers⟩ := (Json.every_and v).mp hrest
  rw [decodeValue_readBack hord ((Json.every_and v).mpr ⟨hstrings, hcounts⟩) pos h, readBack_of_integersFit hintegers]

/-! ## What is written reads back, property by property -/

section

variable {keyNameFor : Int32 → String} {ε : Type} {keyIdFor : String → Except ε Int32}

/-- The property of a key is written before those of the keys after it. -/
theorem encode_cons {key : String} {v : Json} {props : List (String × Json)} {buf : List UInt8}
    (h : encode keyIdFor ((key, v) :: props) = .ok buf) :
    ∃ kid rest, keyIdFor key = .ok kid ∧ encode keyIdFor props = .ok rest ∧ buf = i32ToLe kid ++ encodeValue v ++ rest := by
  unfold encode at h
  cases hkid : keyIdFor key with
  | error e => rw [hkid] at h; cases h
  | ok kid =>
    cases hrest : encode keyIdFor props with
    | error e => rw [hkid, hrest] at h; cases h
    | ok rest =>
      rw [hkid, hrest] at h
      cases h
      exact ⟨kid, rest, rfl, rfl, rfl⟩

/-- The id of a key stands before its value. -/
theorem kid_stands {pos : Nat} {kid : Int32} {v : Json} (h : Stands data pos (i32ToLe kid ++ encodeValue v)) :
    pos + 5 ≤ data.length ∧ i32OfLe (slice data pos 4) = kid ∧ Stands data (pos + 4) (encodeValue v) := by
  have hkid := h.left.slice
  have hcell := h.right
  have hle := h.length_le
  have hpos := length_encodeValue_pos v
  rw [length_i32ToLe] at hkid hcell
  rw [List.length_append, length_i32ToLe] at hle
  exact ⟨by omega, by rw [hkid, i32OfLe_i32ToLe], hcell⟩

theorem decodeFrom_end {pos : Nat} {map : List (String × Json)} (h : data.length ≤ pos) :
    decodeFrom data keyNameFor pos map = map := by
  rw [decodeFrom, if_neg (by omega)]

/-- Properties in the order of their keys are read and set one after another. -/
theorem decodeFrom_encode (hinv : ∀ key id, keyIdFor key = .ok id → keyNameFor id = key)
    {props done : List (String × Json)} {buf : List UInt8} (henc : encode keyIdFor props = .ok buf)
    (hsorted : Sorted (done ++ readBackFields props)) (hord : ∀ f ∈ props, f.2.Ordered)
    (hfit : ∀ f ∈ props, f.2.Every Json.SizesFit) {pos : Nat} (h : Stands data pos buf)
    (hend : pos + buf.length = data.length) :
    decodeFrom data keyNameFor pos done = done ++ readBackFields props := by
  induction props generalizing done buf pos with
  | nil =>
    cases henc
    rw [decodeFrom_end (by rw [← hend]; exact Nat.le_refl _), readBackFields, List.append_nil]
  | cons f props ih =>
    obtain ⟨key, v⟩ := f
    obtain ⟨kid, rest, hkid, hrest, rfl⟩ := encode_cons henc
    have hnext : done ++ readBackFields ((key, v) :: props) = done ++ [(key, readBack v)] ++ readBackFields props := by
      rw [List.append_assoc]
      rfl
    have hright := h.right
    rw [List.length_append, length_i32ToLe, ← Nat.add_assoc] at hright
    simp only [List.length_append, length_i32ToLe] at hend
    obtain ⟨hin, hread, hcell⟩ := kid_stands h.left
    have hv := decodeValue_readBack (hord _ List.mem_cons_self) (hfit _ List.mem_cons_self) _ hcell
    rw [decodeFrom, if_pos hin, hread, hv]
    simp only
    rw [hinv key kid hkid, Sorted.insert_next hsorted, hnext]
    exact ih hrest (hnext ▸ hsorted) (fun g hg => hord g (List.mem_cons_of_mem _ hg))
      (fun g hg => hfit g (List.mem_cons_of_mem _ hg)) hright (by omega)

/-- What is written with short strings, lists and maps is read as a whole. -/
theorem decode_encode (hinv : ∀ key id, keyIdFor key = .ok id → keyNameFor id = key) {props : List (String × Json)}
    (hord : (Json.object props).Ordered) {bytes : List UInt8} (henc : encode keyIdFor props = .ok bytes)
    (hfit : ∀ f ∈ props, f.2.Every Json.SizesFit) : decode bytes keyNameFor = readBackFields props := by
  obtain ⟨hsorted, hord⟩ := (Json.every_object _).mp hord
  have hall : Stands bytes 0 bytes := ⟨[], [], by rw [List.append_nil, List.nil_append], rfl⟩
  exact @decodeFrom_encode bytes keyNameFor ε keyIdFor hinv props [] bytes henc (sorted_readBackFields.mpr hsorted) hord
    hfit 0 hall (Nat.zero_add _)

end

/-! ## What can be read -/

namespace Json

/-- What every value that is read is like, and every value inside it. -/
def Readable (v : Json) : Prop := v.KeysSorted ∧ v.CountsFit ∧ v.IntegersFit

theorem readable_ofI64 (i : Int64) : (Json.number (.ofI64 i)).Every Readable :=
  ⟨trivial, trivial, JsonNumber.signed_ofI64 i⟩

theorem readable_ofFloat (f : F64) : (jsonOfFloat f).Every Readable := by
  unfold jsonOfFloat JsonNumber.ofF64?
  split
  · exact ⟨trivial, trivial, trivial⟩
  · exact readable_ofI64 0

end Json

theorem readable_readCell {start n consumed : Nat} {value : List UInt8 → Json}
    (h : ∀ bs, (value bs).Every Json.Readable) : (readCell data start n value consumed).1.Every Json.Readable := by
  unfold readCell
  split
  · exact h _
  · exact ⟨trivial, trivial, trivial⟩

theorem readable_decodeItems (h : ∀ p, (decodeAt p).1.Every Json.Readable) (count pos : Nat) :
    (decodeItems decodeAt count pos).1.length ≤ count ∧
      ∀ v ∈ (decodeItems decodeAt count pos).1, v.Every Json.Readable := by
  induction count generalizing pos with
  | zero => exact ⟨Nat.le_refl _, fun _ hv => absurd hv List.not_mem_nil⟩
  | succ count ih =>
    unfold decodeItems
    simp only
    split
    · exact ⟨by simp, List.forall_mem_singleton.mpr (h pos)⟩
    · obtain ⟨hlen, hall⟩ := ih (pos + (decodeAt pos).2)
      exact ⟨Nat.succ_le_succ hlen, List.forall_mem_cons.mpr ⟨h pos, hall⟩⟩

theorem readable_insert {k : String} {v : Json} {obj : List (String × Json)} (hv : v.Every Json.Readable)
    (h : Sorted obj ∧ ∀ f ∈ obj, f.2.Every Json.Readable) :
    Sorted (SortedMap.insert k v obj) ∧ ∀ f ∈ SortedMap.insert k v obj, f.2.Every Json.Readable := by
  refine ⟨h.1.insert k v, fun f hf => ?_⟩
  rcases mem_insert hf with rfl | hf
  · exact hv
  · exact h.2 f hf

/-- A map has as many fields as were read at most, in the order of their keys. -/
theorem readable_decodeFields (h : ∀ p, (decodeAt p).1.Every Json.Readable) (count pos : Nat)
    {obj : List (String × Json)} (hsorted : Sorted obj) (hobj : ∀ f ∈ obj, f.2.Every Json.Readable) :
    (decodeFields decodeAt count pos obj).1.length ≤ obj.length + count ∧
      Sorted (decodeFields decodeAt count pos obj).1 ∧
      ∀ f ∈ (decodeFields decodeAt count pos obj).1, f.2.Every Json.Readable := by
  induction count generalizing pos obj with
  | zero => exact ⟨Nat.le_refl _, hsorted, hobj⟩
  | succ count ih =>
    have hlen := length_insert_le (keyOf (decodeAt pos).1) (decodeAt (pos + (decodeAt pos).2)).1 obj
    have hobj' := (readable_insert (h (pos + (decodeAt pos).2)) ⟨hsorted, hobj⟩ :
      Sorted (SortedMap.insert (keyOf (decodeAt pos).1) _ obj) ∧ _)
    unfold decodeFields
    simp only
    split
    · refine ⟨?_, hobj'⟩
      change (SortedMap.insert _ _ obj).length ≤ _
      omega
    · obtain ⟨hlen', hsorted'', hall⟩ := ih (pos + (decodeAt pos).2 + (decodeAt (pos + (decodeAt pos).2)).2) hobj'.1 hobj'.2
      exact ⟨by omega, hsorted'', hall⟩

theorem leNat_slice_lt (off : Nat) : leNat (slice data off 4) < 2 ^ 32 := by
  have hlen : (slice data off 4).length ≤ 4 := by
    unfold slice
    rw [List.length_take]
    exact Nat.min_le_left _ _
  exact Nat.lt_of_lt_of_le (leNat_lt _) (Nat.pow_le_pow_right (by decide) hlen)

theorem readable_ite {c : Prop} [Decidable c] {a b : Json × Nat} (ha : a.1.Every Json.Readable)
    (hb : b.1.Every Json.Readable) : (if c then a else b).1.Every Json.Readable := by
  split
  · exact ha
  · exact hb

theorem readable_decodeCell (h : ∀ p, (decodeAt p).1.Every Json.Readable) (pos : Nat) :
    (decodeCell data decodeAt pos).1.Every Json.Readable := by
  have hnull : Json.null.Every Json.Readable := ⟨trivial, trivial, trivial⟩
  have hempty : Sorted ([] : List (String × Json)) ∧ ∀ f ∈ ([] : List (String × Json)), f.2.Every Json.Readable :=
    ⟨List.Pairwise.nil, fun _ hf => absurd hf List.not_mem_nil⟩
  unfold decodeCell
  cases data[pos]? with
  | none => exact hnull
  | some tag =>
    refine readable_ite hnull (readable_ite ?bool (readable_ite ?integer (readable_ite ?float (readable_ite ?short
      (readable_ite ?long (readable_ite ?list (readable_ite ?map (readable_ite ?date (readable_ite ?time
        (readable_ite ?duration hnull))))))))))
    case bool =>
      split
      · exact ⟨trivial, trivial, trivial⟩
      · exact hnull
    case integer => exact readable_readCell fun bs => Json.readable_ofI64 _
    case float => exact readable_readCell fun bs => Json.readable_ofFloat _
    case short =>
      split
      · exact readable_readCell fun bs => ⟨trivial, trivial, trivial⟩
      · exact hnull
    case long => exact readable_ite (readable_readCell fun bs => ⟨trivial, trivial, trivial⟩) hnull
    case list =>
      obtain ⟨hlen, hall⟩ := readable_decodeItems h (leNat (slice data (pos + 1) 4)) (pos + 1 + 4)
      exact readable_ite
        ((Json.every_array _).mpr ⟨⟨trivial, Nat.lt_of_le_of_lt hlen (leNat_slice_lt _), trivial⟩, hall⟩) hnull
    case map =>
      obtain ⟨hlen, hsorted, hall⟩ := readable_decodeFields h (leNat (slice data (pos + 1) 4)) (pos + 1 + 4) hempty.1 hempty.2
      rw [List.length_nil, Nat.zero_add] at hlen
      exact readable_ite
        ((Json.every_object _).mpr ⟨⟨hsorted, Nat.lt_of_le_of_lt hlen (leNat_slice_lt _), trivial⟩, hall⟩) hnull
    case date => exact readable_readCell fun bs => Json.readable_ofI64 _
    case time => exact readable_readCell fun bs => Json.readable_ofI64 _
    case duration =>
      refine readable_readCell fun bs => (Json.every_object _).mpr ?_
      have hfields := readable_insert (k := "nanoseconds") (Json.readable_ofI64 (i64OfLe (slice bs 8 8)))
        (readable_insert (k := "days") (Json.readable_ofI64 (i32OfLe (slice bs 4 4)).toInt64)
          (readable_insert (k := "months") (Json.readable_ofI64 (i32OfLe (slice bs 0 4)).toInt64) hempty))
      have hthree : (SortedMap.insert "nanoseconds" (Json.number (.ofI64 (i64OfLe (slice bs 8 8))))
          (SortedMap.insert "days" (Json.number (.ofI64 (i32OfLe (slice bs 4 4)).toInt64))
            (SortedMap.insert "months" (Json.number (.ofI64 (i32OfLe (slice bs 0 4)).toInt64)) []))).length ≤ 0 + 1 + 1 + 1 :=
        Nat.le_trans (length_insert_le ..) (Nat.succ_le_succ (Nat.le_trans (length_insert_le ..)
          (Nat.succ_le_succ (length_insert_le ..))))
      exact ⟨⟨hfields.1, Nat.lt_of_le_of_lt hthree (by decide), trivial⟩, hfields.2⟩

theorem readable_decodeDepth (depth pos : Nat) : (decodeDepth data depth pos).1.Every Json.Readable := by
  induction depth generalizing pos with
  | zero => exact ⟨trivial, trivial, trivial⟩
  | succ depth ih => exact readable_decodeCell ih pos

/-- Every value read is an ordered one, has counts that were stored, and integers that are signed. -/
theorem readable_decodeValue (data : List UInt8) (pos : Nat) : (decodeValue data pos).1.Every Json.Readable :=
  readable_decodeDepth _ _

/-- Every property read is readable, and the properties are in the order of their keys. -/
theorem readable_decodeFrom (keyNameFor : Int32 → String) (pos : Nat) (map : List (String × Json))
    (hmap : Sorted map ∧ ∀ f ∈ map, f.2.Every Json.Readable) :
    Sorted (decodeFrom data keyNameFor pos map) ∧ ∀ f ∈ decodeFrom data keyNameFor pos map, f.2.Every Json.Readable := by
  fun_induction decodeFrom data keyNameFor pos map with
  | case1 pos map hin kid value consumed hvalue ih =>
    have hread := readable_decodeValue data (pos + 4)
    rw [hvalue] at hread
    exact ih (readable_insert hread hmap)
  | case2 pos map hin => exact hmap

/-- The properties stored in the bytes are an ordered map. -/
theorem ordered_decode (data : List UInt8) (keyNameFor : Int32 → String) :
    (Json.object (decode data keyNameFor)).Ordered := by
  have hempty : Sorted ([] : List (String × Json)) := List.Pairwise.nil
  obtain ⟨hsorted, hall⟩ :=
    @readable_decodeFrom data keyNameFor 0 [] ⟨hempty, fun _ h => absurd h List.not_mem_nil⟩
  exact (Json.every_object _).mpr ⟨hsorted, fun f hf => ((Json.every_and f.2).mp (hall f hf)).1⟩

end PgEddy
