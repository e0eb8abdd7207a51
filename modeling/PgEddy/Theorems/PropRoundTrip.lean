import PgEddy.Lemmas.PropCells

/-!
# Properties that read back

Reading stored properties gives the map that was stored when its integers are signed ones and its strings, lists and maps are
short enough for lengths of four bytes (`prop_round_trip`). No other map with such strings reads back: an unsigned integer
of 2 ^ 63 or more is stored as a float.
-/

namespace PgEddy

open ByteBuffer Utf8 Binary64 SortedMap

namespace JsonMap

/-- A condition holds of every value of the map and of every value inside it. -/
def Every (p : Json → Prop) (m : JsonMap) : Prop := ∀ f ∈ m.fields, f.2.Every p

end JsonMap

/-- For every map of properties and every registry of keys with its inverse, what `encode` writes reads back as the map if
every integer is a signed one and every string, nested key, list and nested map is shorter than 2 ^ 32; and a map that reads
back has only signed integers, and only lists and nested maps that are shorter than 2 ^ 32. -/
theorem prop_round_trip {ε : Type} (keyIdFor : String → Except ε Int32) (keyNameFor : Int32 → String)
    (hinv : ∀ key id, keyIdFor key = .ok id → keyNameFor id = key) (m : JsonMap) (bytes : List UInt8)
    (henc : encode keyIdFor m.fields = .ok bytes) :
    (m.Every Json.Storable → decode bytes keyNameFor = m.fields) ∧
      (decode bytes keyNameFor = m.fields → m.Every fun v => v.CountsFit ∧ v.IntegersFit) := by
  constructor
  · intro hfit
    have hparts : ∀ f ∈ m.fields, f.2.Every Json.SizesFit ∧ f.2.Every Json.IntegersFit := fun f hf => by
      obtain ⟨hstrings, hrest⟩ := (Json.every_and f.2).mp (hfit f hf)
      obtain ⟨hcounts, hintegers⟩ := (Json.every_and f.2).mp hrest
      exact ⟨(Json.every_and f.2).mpr ⟨hstrings, hcounts⟩, hintegers⟩
    rw [decode_encode hinv m.ordered henc fun f hf => (hparts f hf).1]
    have hsame := readBack_of_integersFit ((Json.every_object m.fields).mpr ⟨trivial, fun f hf => (hparts f hf).2⟩)
    rw [readBack] at hsame
    exact Json.object.inj hsame
  · intro hread f hf
    have hempty : Sorted ([] : List (String × Json)) := List.Pairwise.nil
    have hf' : f ∈ decodeFrom bytes keyNameFor 0 [] := by
      change f ∈ decode bytes keyNameFor
      rw [hread]
      exact hf
    have hreadable := (readable_decodeFrom keyNameFor 0 [] ⟨hempty, fun _ h => absurd h List.not_mem_nil⟩).2 f hf'
    exact ((Json.every_and f.2).mp hreadable).2

/-- A registry of two keys. -/
def twoKeyId (key : String) : Except Unit Int32 :=
  if key = "place" then .ok 3 else if key = "tags" then .ok 7 else .error ()

def twoKeyName (id : Int32) : String := if id = 3 then "place" else "tags"

theorem twoKeyName_twoKeyId (key : String) (id : Int32) (h : twoKeyId key = .ok id) : twoKeyName id = key := by
  unfold twoKeyId at h
  split at h
  · cases h
    rename_i hkey
    rw [hkey]
    rfl
  · split at h
    · cases h
      rename_i hkey
      rw [hkey]
      rfl
    · cases h

/-- A place with its floor, and two tags. -/
def nestedMap : JsonMap where
  fields := [("place", .object [("floor", .number (.negInt (-2) (by decide))), ("open", .bool true)]),
    ("tags", .array [.string "old", .null])]
  ordered := by decide +kernel

/-- The map of one unsigned integer, 2 ^ 63. -/
def unsignedMap : JsonMap where
  fields := [("tags", .number (.posInt 9223372036854775808))]
  ordered := by decide +kernel

/-- A nested map reads back. -/
theorem prop_round_trip_nested_map :
    ∃ bytes, encode twoKeyId nestedMap.fields = .ok bytes ∧ decode bytes twoKeyName = nestedMap.fields := by
  have hfit : nestedMap.Every Json.Storable := by
    unfold JsonMap.Every
    decide +kernel
  exact ⟨_, rfl, (prop_round_trip twoKeyId twoKeyName twoKeyName_twoKeyId nestedMap _ rfl).1 hfit⟩

/-- The unsigned integer 2 ^ 63 is stored as a float and reads back as one. -/
theorem unsigned_reads_as_float :
    ∃ bytes, encode twoKeyId unsignedMap.fields = .ok bytes ∧
      decode bytes twoKeyName = [("tags", .number (.float (.ofNat 9223372036854775808) (by decide +kernel)))] ∧
      decode bytes twoKeyName ≠ unsignedMap.fields := by
  let bytes := i32ToLe 7 ++ encodeValue (.number (.posInt 9223372036854775808)) ++ []
  have hcell : decodeValue bytes 4 = (.number (.float (.ofNat 9223372036854775808) (by decide +kernel)), 9) := by
    decide +kernel
  have hread : decode bytes twoKeyName
      = [("tags", .number (.float (.ofNat 9223372036854775808) (by decide +kernel)))] := by
    unfold decode
    rw [decodeFrom, if_pos (by decide +kernel), Nat.zero_add, hcell]
    simp only
    rw [decodeFrom_end (by decide +kernel)]
    decide +kernel
  refine ⟨bytes, rfl, hread, ?_⟩
  rw [hread]
  decide +kernel

end PgEddy
