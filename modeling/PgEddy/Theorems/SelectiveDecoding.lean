import PgEddy.Lemmas.PropSkips
import PgEddy.Theorems.PropRoundTrip

/-!
# Decoding some properties

Where the strings, lists and maps are short enough for their lengths, decoding the wanted properties gives those of the
properties that decoding all of them gives. A string of 2 ^ 32 bytes is stored with the length zero, and what is read after it
may end in a cell that the bytes do not hold: `decode` takes one byte of it, and `decodeSelected` skips it as a whole.
-/

namespace PgEddy

open ByteBuffer Utf8 Binary64 SortedMap

variable {ε : Type}

/-- The id of the key is a wanted one. -/
def isWanted (keyIdFor : String → Except ε Int32) (wantedKeys : List Int32) (key : String) : Bool :=
  match keyIdFor key with
  | .ok id => id ∈ wantedKeys
  | .error _ => false

namespace SelectiveDecodingAux

variable {data : List UInt8} {keyIdFor : String → Except ε Int32} {keyNameFor : Int32 → String} {wantedKeys : List Int32}

theorem decodeSelectedFrom_end {pos : Nat} {map : List (String × Json)} (h : data.length < pos + 5) :
    decodeSelectedFrom data wantedKeys keyNameFor pos map = map := by
  rw [decodeSelectedFrom, if_neg (by omega)]

/-- The wanted properties are read and set one after another, and the others are skipped. -/
theorem decodeSelectedFrom_encode (hinv : ∀ key id, keyIdFor key = .ok id → keyNameFor id = key)
    {props done : List (String × Json)} {buf : List UInt8} (henc : encode keyIdFor props = .ok buf)
    (hsorted : Sorted (done ++ readBackFields props)) (hord : ∀ f ∈ props, f.2.Ordered)
    (hfit : ∀ f ∈ props, f.2.Every Json.SizesFit) {pos : Nat} (h : Stands data pos buf)
    (hend : pos + buf.length = data.length) :
    decodeSelectedFrom data wantedKeys keyNameFor pos done =
      done ++ (readBackFields props).filter fun p => isWanted keyIdFor wantedKeys p.1 := by
  induction props generalizing done buf pos with
  | nil =>
    cases henc
    rw [List.length_nil] at hend
    rw [decodeSelectedFrom_end (by omega), readBackFields, List.filter_nil, List.append_nil]
  | cons f props ih =>
    obtain ⟨key, v⟩ := f
    obtain ⟨kid, rest, hkid, hrest, rfl⟩ := encode_cons henc
    have hright := h.right
    rw [List.length_append, length_i32ToLe, ← Nat.add_assoc] at hright
    simp only [List.length_append, length_i32ToLe] at hend
    obtain ⟨hin, hread, hcell⟩ := kid_stands h.left
    have hord' := fun g hg => hord g (List.mem_cons_of_mem _ hg)
    have hfit' := fun g hg => hfit g (List.mem_cons_of_mem _ hg)
    have hwanted : isWanted keyIdFor wantedKeys key = decide (kid ∈ wantedKeys) := by
      unfold isWanted
      rw [hkid]
    rw [readBackFields] at hsorted ⊢
    rw [List.filter_cons, hwanted, decodeSelectedFrom, if_pos hin, hread]
    by_cases hmem : kid ∈ wantedKeys
    · have hv := decodeValue_readBack (hord _ List.mem_cons_self) (hfit _ List.mem_cons_self) _ hcell
      rw [if_pos hmem, if_pos (decide_eq_true hmem), hv]
      simp only
      rw [hinv key kid hkid, Sorted.insert_next hsorted, ih hrest _ hord' hfit' hright (by omega), List.append_assoc]
      · rfl
      · rw [List.append_assoc]
        exact hsorted
    · have hv : skipValue data (pos + 4) = (encodeValue v).length := skipValue_encodeValue (hfit _ List.mem_cons_self) _ hcell
      rw [if_neg hmem, if_neg (by simpa using hmem), hv]
      exact ih hrest (hsorted.sublist ((List.sublist_cons_self _ _).append_left done)) hord' hfit' hright (by omega)

end SelectiveDecodingAux

open SelectiveDecodingAux

/-- For every map of properties whose strings, nested keys, lists and nested maps are shorter than 2 ^ 32, and every set of
wanted keys, decoding the wanted ones gives what decoding all of them gives, restricted to the wanted keys. -/
theorem decode_selected (keyIdFor : String → Except ε Int32) (keyNameFor : Int32 → String)
    (hinv : ∀ key id, keyIdFor key = .ok id → keyNameFor id = key) (m : JsonMap) (bytes : List UInt8)
    (henc : encode keyIdFor m.fields = .ok bytes) (hfit : m.Every Json.SizesFit) (wantedKeys : List Int32) :
    decodeSelected bytes wantedKeys keyNameFor =
      (decode bytes keyNameFor).filter fun p => isWanted keyIdFor wantedKeys p.1 := by
  obtain ⟨hsorted, hord⟩ := (Json.every_object _).mp m.ordered
  have hall : Stands bytes 0 bytes := ⟨[], [], by rw [List.append_nil, List.nil_append], rfl⟩
  rw [decode_encode hinv m.ordered henc hfit]
  exact decodeSelectedFrom_encode hinv henc (sorted_readBackFields.mpr hsorted) hord hfit hall (Nat.zero_add _)

/-- Of a place and two tags only the tags are wanted. -/
theorem decode_selected_nested_map : ∃ bytes, encode twoKeyId nestedMap.fields = .ok bytes ∧
    decodeSelected bytes [7] twoKeyName = (decode bytes twoKeyName).filter fun p => isWanted twoKeyId [7] p.1 := by
  have hfit : nestedMap.Every Json.SizesFit := by
    unfold JsonMap.Every
    decide +kernel
  exact ⟨_, rfl, decode_selected twoKeyId twoKeyName twoKeyName_twoKeyId nestedMap _ rfl hfit [7]⟩

/-! ### A string of 2 ^ 32 bytes -/

namespace SelectiveDecodingAux

/-- The last characters of the string: a key and an integer of which six bytes are there, in which stand the key 7 and the
boolean true. -/
def lastBytes : List UInt8 := [0x61, 0x62, 0x63, 0x64, 0x01, 0x07, 0x00, 0x00, 0x00, 0x03, 0x01]

/-- A string of characters that read as keys with the value null, and then `lastBytes`. -/
def text (m : Nat) : String :=
  .ofList (List.replicate (5 * m) (Char.ofNat 0x0E) ++ lastBytes.map fun b => Char.ofNat b.toNat)

theorem utf8Bytes_text (m : Nat) : utf8Bytes (text m) = List.replicate (5 * m) tagNull ++ lastBytes := by
  unfold utf8Bytes text
  rw [String.toList_ofList, List.flatMap_append]
  congr 1
  · induction 5 * m with
    | zero => rfl
    | succ n ih =>
      rw [List.replicate_succ, List.flatMap_cons, ih, List.replicate_succ]
      rfl

/-- The names of the two keys, and of any other id. -/
def keyName (id : Int32) : String := if id = 3 then "place" else if id = 7 then "tags" else "?"

/-- A place with a long name. -/
def longMap (m : Nat) : JsonMap where
  fields := [("place", .string (text m))]
  ordered := (Json.every_object _).mpr ⟨List.pairwise_singleton _ _, fun f hf => by
    rw [List.mem_singleton.mp hf]
    trivial⟩

/-- The key of four bytes `tagNull`. -/
def nullKey : Int32 := 0x0E0E0E0E

theorem stands_nulls {data : List UInt8} {pos m : Nat} {rest : List UInt8}
    (h : Stands data pos (List.replicate (5 * (m + 1)) tagNull ++ rest)) :
    Stands data pos (i32ToLe nullKey ++ encodeValue .null) ∧
      Stands data (pos + 5) (List.replicate (5 * m) tagNull ++ rest) := by
  have hsplit : List.replicate (5 * (m + 1)) tagNull = (i32ToLe nullKey ++ encodeValue .null) ++ List.replicate (5 * m) tagNull := by
    rw [Nat.mul_add, Nat.add_comm, List.replicate_add]
    rfl
  rw [hsplit, List.append_assoc] at h
  exact ⟨h.left, h.right⟩

/-- The nulls are read one key after another. -/
theorem decodeFrom_nulls {data : List UInt8} {m pos : Nat} {rest : List UInt8}
    (h : Stands data pos (List.replicate (5 * m) tagNull ++ rest)) (map : List (String × Json)) :
    ∃ map', decodeFrom data keyName pos map = decodeFrom data keyName (pos + 5 * m) map' := by
  induction m generalizing pos map with
  | zero => exact ⟨map, rfl⟩
  | succ m ih =>
    obtain ⟨hnull, hrest⟩ := stands_nulls h
    obtain ⟨hin, hread, hcell⟩ := kid_stands hnull
    obtain ⟨map', hmap'⟩ := ih hrest (SortedMap.insert (keyName nullKey) .null map)
    refine ⟨map', ?_⟩
    rw [decodeFrom, if_pos hin, hread, decodeValue_eq, decodeCell_null _ hcell.head]
    simp only
    rw [hmap']
    congr 1
    omega

/-- The nulls are skipped one key after another. -/
theorem decodeSelectedFrom_nulls {data : List UInt8} {m pos : Nat} {rest : List UInt8}
    (h : Stands data pos (List.replicate (5 * m) tagNull ++ rest)) (map : List (String × Json)) :
    decodeSelectedFrom data [7] keyName pos map = decodeSelectedFrom data [7] keyName (pos + 5 * m) map := by
  induction m generalizing pos with
  | zero => rfl
  | succ m ih =>
    obtain ⟨hnull, hrest⟩ := stands_nulls h
    obtain ⟨hin, hread, hcell⟩ := kid_stands hnull
    rw [decodeSelectedFrom, if_pos hin, hread, if_neg (by decide), skipValue_eq,
      skipCell_fixed (n := 1) _ hcell.head (by simp), ih hrest]
    congr 1
    omega

/-- Of the last integer `decode` takes one byte, and finds the tags after it. -/
theorem decodeFrom_last {data : List UInt8} {pos : Nat} (h : Stands data pos lastBytes) (hend : pos + 11 = data.length)
    (map : List (String × Json)) : ("tags", .bool true) ∈ decodeFrom data keyName pos map := by
  have hparts : Stands data pos ([0x61, 0x62, 0x63, 0x64, tagInteger] ++ ([0x07, 0x00, 0x00, 0x00] ++ [tagBool, 0x01])) := h
  have htag : data[pos + 4]? = some tagInteger := h.tail.tail.tail.tail.head
  have hkid : slice data (pos + 4 + 1) 4 = [0x07, 0x00, 0x00, 0x00] := hparts.right.left.slice
  have hbool : Stands data (pos + 4 + 1 + 4) [tagBool, 0x01] := hparts.right.right
  rw [decodeFrom, if_pos (by omega), decodeValue_eq, decodeCell_integer _ htag, readCell, if_neg (by omega)]
  simp only
  rw [decodeFrom, if_pos (by omega), hkid, decodeValue_eq, decodeCell_bool _ hbool.head hbool.tail.head]
  simp only
  rw [decodeFrom_end (by omega)]
  exact mem_insert_self _ _ _

/-- `decodeSelected` skips the last integer, and with it the tags. -/
theorem decodeSelectedFrom_last {data : List UInt8} {pos : Nat} (h : Stands data pos lastBytes)
    (hend : pos + 11 = data.length) (map : List (String × Json)) : decodeSelectedFrom data [7] keyName pos map = map := by
  have htag : data[pos + 4]? = some tagInteger := h.tail.tail.tail.tail.head
  have hparts : Stands data pos ([0x61, 0x62, 0x63, 0x64] ++ lastBytes.drop 4) := h
  have hkid : slice data pos 4 = [0x61, 0x62, 0x63, 0x64] := hparts.left.slice
  rw [decodeSelectedFrom, if_pos (by omega), hkid, if_neg (by decide), skipValue_eq,
    skipCell_fixed (n := 9) _ htag (by simp), decodeSelectedFrom_end (by omega)]

/-- The length that is stored for the string is zero. -/
theorem encode_longMap {m : Nat} (hm : 5 * m + 11 = 2 ^ 32) :
    encode twoKeyId (longMap m).fields =
      .ok (i32ToLe 3 ++ [tagStrLong, 0, 0, 0, 0] ++ (List.replicate (5 * m) tagNull ++ lastBytes)) := by
  have hlen : (utf8Bytes (text m)).length = 2 ^ 32 := by
    rw [utf8Bytes_text, List.length_append, List.length_replicate]
    exact hm
  have hvalue : encodeValue (.string (text m)) = [tagStrLong, 0, 0, 0, 0] ++ (List.replicate (5 * m) tagNull ++ lastBytes) := by
    rw [encodeValue, encodeMapKey, hlen, if_neg (by decide), utf8Bytes_text]
    rfl
  change (do
    let kid ← twoKeyId "place"
    let buf ← encode twoKeyId []
    return i32ToLe kid ++ encodeValue (.string (text m)) ++ buf) = _
  rw [hvalue, encode]
  change Except.ok (i32ToLe 3 ++ ([tagStrLong, 0, 0, 0, 0] ++ (List.replicate (5 * m) tagNull ++ lastBytes)) ++ []) = _
  rw [List.append_nil, List.append_assoc]

theorem selected_ne_of_long {m : Nat} (hm : 5 * m + 11 = 2 ^ 32) :
    ∃ bytes, encode twoKeyId (longMap m).fields = .ok bytes ∧
      ("tags", .bool true) ∈ decode bytes keyName ∧ decodeSelected bytes [7] keyName = [] := by
  refine ⟨_, encode_longMap hm, ?_⟩
  generalize hdata : i32ToLe 3 ++ [tagStrLong, 0, 0, 0, 0] ++ (List.replicate (5 * m) tagNull ++ lastBytes) = data
  have hstands : Stands data 9 (List.replicate (5 * m) tagNull ++ lastBytes) :=
    ⟨i32ToLe 3 ++ [tagStrLong, 0, 0, 0, 0], [], by rw [← hdata, List.append_nil], rfl⟩
  have hfirst : Stands data 0 (i32ToLe 3 ++ [tagStrLong, 0, 0, 0, 0]) := ⟨[], _, hdata.symm, rfl⟩
  have hlen : 9 + 5 * m + 11 = data.length := by
    rw [← hdata]
    simp only [List.length_append, List.length_replicate, length_i32ToLe]
    rfl
  have hlast : Stands data (9 + 5 * m) lastBytes := by
    have := hstands.right
    rwa [List.length_replicate] at this
  have hkid : i32OfLe (slice data 0 4) = 3 := by
    have : slice data 0 4 = i32ToLe 3 := hfirst.left.slice
    rw [this, i32OfLe_i32ToLe]
  have hcell : Stands data 4 [tagStrLong, 0, 0, 0, 0] := hfirst.right
  have hzero : leNat (slice data (4 + 1) 4) = 0 := by
    have : slice data (4 + 1) 4 = [0, 0, 0, 0] := hcell.tail.slice
    rw [this]
    rfl
  constructor
  · obtain ⟨map', hmap'⟩ := decodeFrom_nulls hstands (SortedMap.insert "place" (.string (ofUtf8Lossy (slice data 9 0))) [])
    unfold decode
    rw [decodeFrom, if_pos (by omega), hkid, decodeValue_eq, decodeCell_strLong _ hcell.head (by omega) hzero, readCell,
      if_pos (by omega)]
    change _ ∈ decodeFrom data keyName 9 _
    exact hmap' ▸ decodeFrom_last hlast hlen map'
  · unfold decodeSelected
    rw [decodeSelectedFrom, if_pos (by omega), hkid, if_neg (by decide), skipValue_eq,
      skipCell_strLong _ hcell.head (by omega) hzero]
    exact (decodeSelectedFrom_nulls hstands []).trans (decodeSelectedFrom_last hlast hlen [])

end SelectiveDecodingAux

/-- The tags that `decode` finds in the bytes of the place are lost where only they are wanted. -/
theorem decode_selected_long_string : ∃ bytes, encode twoKeyId (longMap 858993457).fields = .ok bytes ∧
    decodeSelected bytes [7] keyName ≠ (decode bytes keyName).filter fun p => isWanted twoKeyId [7] p.1 := by
  obtain ⟨bytes, henc, hmem, hnone⟩ := selected_ne_of_long (m := 858993457) (by decide)
  refine ⟨bytes, henc, ?_⟩
  rw [hnone]
  exact (List.ne_nil_of_mem (List.mem_filter.mpr ⟨hmem, by decide⟩)).symm

end PgEddy
