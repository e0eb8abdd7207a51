import PgEddy.Json
import PgEddy.Lib.Bytes
import PgEddy.Lib.Utf8

/-!
# The property store

Properties are stored as cells one after another: the id of the key in four bytes, a tag, and a value whose length the tag
tells or the value itself starts with. Nested map keys are strings in the cell.
-/

namespace PgEddy

open ByteBuffer Utf8 Binary64

/-! ## Tags -/

def tagInteger : UInt8 := 0x01
def tagFloat : UInt8 := 0x02
def tagBool : UInt8 := 0x03
/-- A string with a length of one byte. -/
def tagStrShort : UInt8 := 0x04
/-- A string with a length of four bytes. -/
def tagStrLong : UInt8 := 0x05
def tagDate : UInt8 := 0x06
def tagLocaldatetime : UInt8 := 0x07
def tagDuration : UInt8 := 0x09
def tagList : UInt8 := 0x0C
def tagMap : UInt8 := 0x0D
def tagNull : UInt8 := 0x0E

/-! ## Encoding -/

/-- A string cell: the short form up to 255 bytes. The long form stores the length modulo 2 ^ 32. -/
def encodeMapKey (key : String) : List UInt8 :=
  let bytes := utf8Bytes key
  if bytes.length ≤ 255 then [tagStrShort, UInt8.ofNat bytes.length] ++ bytes
  else [tagStrLong] ++ leBytes 4 bytes.length ++ bytes

/-- The cell of a number: a signed integer where it is one, a float otherwise. -/
def encodeNumber (n : JsonNumber) : List UInt8 :=
  match n.asI64 with
  | some i => tagInteger :: i64ToLe i
  | none =>
    match n.asF64 with
    | some f => tagFloat :: leBytes 8 f.bits.toNat
    | none => [tagNull]

mutual

/-- The cell of a value. -/
def encodeValue : Json → List UInt8
  | .null => [tagNull]
  | .bool b => [tagBool, if b then 1 else 0]
  | .number n => encodeNumber n
  | .string s => encodeMapKey s
  | .array items => [tagList] ++ leBytes 4 items.length ++ encodeItems items
  | .object fields => [tagMap] ++ leBytes 4 fields.length ++ encodeFields fields

def encodeItems : List Json → List UInt8
  | [] => []
  | v :: items => encodeValue v ++ encodeItems items

def encodeFields : List (String × Json) → List UInt8
  | [] => []
  | (k, v) :: fields => encodeMapKey k ++ encodeValue v ++ encodeFields fields

end

/-- The properties of a node or an edge, as `encode` writes them. -/
def encode {ε : Type} (keyIdFor : String → Except ε Int32) : List (String × Json) → Except ε (List UInt8)
  | [] => .ok []
  | (key, value) :: props => do
    let kid ← keyIdFor key
    let buf ← encode keyIdFor props
    return i32ToLe kid ++ encodeValue value ++ buf

/-! ## Decoding -/

/-- The value of `n` bytes at `start`, or what a cell that ends too early reads as. -/
def readCell (data : List UInt8) (start n : Nat) (value : List UInt8 → Json) (consumed : Nat) : Json × Nat :=
  if start + n ≤ data.length then (value (slice data start n), consumed) else (.null, 1)

/-- The float of a cell: what is not finite reads as zero. -/
def jsonOfFloat (f : F64) : Json := .number ((JsonNumber.ofF64? f).getD (.ofI64 0))

/-- The items of a list, read one after another from `pos`, and where the last one ends. A cell of no bytes is the last. -/
def decodeItems (decodeAt : Nat → Json × Nat) : Nat → Nat → List Json × Nat
  | 0, pos => ([], pos)
  | count + 1, pos =>
    let (v, c) := decodeAt pos
    if c = 0 then ([v], pos)
    else
      let (items, last) := decodeItems decodeAt count (pos + c)
      (v :: items, last)

/-- The key a cell gives. -/
def keyOf : Json → String
  | .string s => s
  | _ => "?"

/-- The fields of a map, read one after another from `pos` into `obj`, and where the last one ends. -/
def decodeFields (decodeAt : Nat → Json × Nat) : Nat → Nat → List (String × Json) → List (String × Json) × Nat
  | 0, pos, obj => (obj, pos)
  | count + 1, pos, obj =>
    let (keyVal, kc) := decodeAt pos
    let (v, vc) := decodeAt (pos + kc)
    let obj' := SortedMap.insert (keyOf keyVal) v obj
    if kc = 0 ∨ vc = 0 then (obj', pos + kc + vc) else decodeFields decodeAt count (pos + kc + vc) obj'

/-- A cell and its length, the cells inside it read by `decodeAt`. -/
def decodeCell (data : List UInt8) (decodeAt : Nat → Json × Nat) (pos : Nat) : Json × Nat :=
  match data[pos]? with
  | none => (.null, 0)
  | some tag =>
    let rest := pos + 1
    if tag = tagNull then (.null, 1)
    else if tag = tagBool then
      match data[rest]? with
      | some b => (.bool (b != 0), 2)
      | none => (.null, 1)
    else if tag = tagInteger then readCell data rest 8 (fun bs => .number (.ofI64 (i64OfLe bs))) 9
    else if tag = tagFloat then
      readCell data rest 8 (fun bs => jsonOfFloat (.ofBits (UInt64.ofNat (leNat bs)))) 9
    else if tag = tagStrShort then
      match data[rest]? with
      | some len => readCell data (rest + 1) len.toNat (fun bs => .string (ofUtf8Lossy bs)) (2 + len.toNat)
      | none => (.null, 1)
    else if tag = tagStrLong then
      if rest + 4 ≤ data.length then
        let len := leNat (slice data rest 4)
        readCell data (rest + 4) len (fun bs => .string (ofUtf8Lossy bs)) (5 + len)
      else (.null, 1)
    else if tag = tagList then
      if rest + 4 ≤ data.length then
        let (items, last) := decodeItems decodeAt (leNat (slice data rest 4)) (rest + 4)
        (.array items, last - pos)
      else (.null, 1)
    else if tag = tagMap then
      if rest + 4 ≤ data.length then
        let (fields, last) := decodeFields decodeAt (leNat (slice data rest 4)) (rest + 4) []
        (.object fields, last - pos)
      else (.null, 1)
    else if tag = tagDate then readCell data rest 4 (fun bs => .number (.ofI64 (i32OfLe bs).toInt64)) 5
    else if tag = tagLocaldatetime then readCell data rest 8 (fun bs => .number (.ofI64 (i64OfLe bs))) 9
    else if tag = tagDuration then
      readCell data rest 16
        (fun bs => .object
          (SortedMap.insert "nanoseconds" (.number (.ofI64 (i64OfLe (slice bs 8 8))))
            (SortedMap.insert "days" (.number (.ofI64 (i32OfLe (slice bs 4 4)).toInt64))
              (SortedMap.insert "months" (.number (.ofI64 (i32OfLe (slice bs 0 4)).toInt64)) []))))
        17
    else (.null, 1)

/-- A cell with the cells inside it read to a depth. Every cell inside another starts after it, so the count of bytes from
the start of a cell is enough depth (`decodeValue_eq`). -/
def decodeDepth (data : List UInt8) : Nat → Nat → Json × Nat
  | 0, _ => (.null, 0)
  | depth + 1, pos => decodeCell data (decodeDepth data depth) pos

/-- The value at a position and the count of bytes it takes. -/
def decodeValue (data : List UInt8) (pos : Nat) : Json × Nat := decodeDepth data (data.length - pos) pos

/-- The properties from a position on, set in `map` one after another. -/
def decodeFrom (data : List UInt8) (keyNameFor : Int32 → String) (pos : Nat) (map : List (String × Json)) :
    List (String × Json) :=
  if pos + 5 ≤ data.length then
    let kid := i32OfLe (slice data pos 4)
    let (value, consumed) := decodeValue data (pos + 4)
    decodeFrom data keyNameFor (pos + 4 + consumed) (SortedMap.insert (keyNameFor kid) value map)
  else map
termination_by data.length - pos

/-- The properties stored in the bytes. -/
def decode (data : List UInt8) (keyNameFor : Int32 → String) : List (String × Json) := decodeFrom data keyNameFor 0 []

/-! ## Decoding some properties -/

/-- Where the items of a list end. -/
def skipItems (skipAt : Nat → Nat) : Nat → Nat → Nat
  | 0, pos => pos
  | count + 1, pos => if skipAt pos = 0 then pos else skipItems skipAt count (pos + skipAt pos)

/-- Where the fields of a map end. -/
def skipFields (skipAt : Nat → Nat) : Nat → Nat → Nat
  | 0, pos => pos
  | count + 1, pos =>
    if skipAt pos = 0 then pos
    else
      let value := pos + skipAt pos
      if skipAt value = 0 then value else skipFields skipAt count (value + skipAt value)

/-- The length of a cell, the cells inside it measured by `skipAt`. It may end after the bytes. -/
def skipCell (data : List UInt8) (skipAt : Nat → Nat) (pos : Nat) : Nat :=
  match data[pos]? with
  | none => 0
  | some tag =>
    let rest := pos + 1
    if tag = tagNull then 1
    else if tag = tagBool then 2
    else if tag = tagInteger ∨ tag = tagFloat ∨ tag = tagLocaldatetime then 9
    else if tag = tagDate then 5
    else if tag = tagDuration then 17
    else if tag = tagStrShort then
      match data[rest]? with
      | some len => 2 + len.toNat
      | none => 1
    else if tag = tagStrLong then
      if rest + 4 ≤ data.length then 5 + leNat (slice data rest 4) else 1
    else if tag = tagList then
      if rest + 4 ≤ data.length then skipItems skipAt (leNat (slice data rest 4)) (rest + 4) - pos else 1
    else if tag = tagMap then
      if rest + 4 ≤ data.length then skipFields skipAt (leNat (slice data rest 4)) (rest + 4) - pos else 1
    else 1

/-- The length of a cell with the cells inside it measured to a depth, which is enough as in `decodeDepth`. -/
def skipDepth (data : List UInt8) : Nat → Nat → Nat
  | 0, _ => 0
  | depth + 1, pos => skipCell data (skipDepth data depth) pos

/-- The count of bytes that a value takes. -/
def skipValue (data : List UInt8) (pos : Nat) : Nat := skipDepth data (data.length - pos) pos

/-- The properties of the wanted keys from a position on, set in `map` one after another. The others are skipped. -/
def decodeSelectedFrom (data : List UInt8) (wantedKeys : List Int32) (keyNameFor : Int32 → String) (pos : Nat)
    (map : List (String × Json)) : List (String × Json) :=
  if pos + 5 ≤ data.length then
    let kid := i32OfLe (slice data pos 4)
    if kid ∈ wantedKeys then
      let (value, consumed) := decodeValue data (pos + 4)
      decodeSelectedFrom data wantedKeys keyNameFor (pos + 4 + consumed) (SortedMap.insert (keyNameFor kid) value map)
    else decodeSelectedFrom data wantedKeys keyNameFor (pos + 4 + skipValue data (pos + 4)) map
  else map
termination_by data.length - pos

/-- The properties of the wanted keys stored in the bytes. -/
def decodeSelected (data : List UInt8) (wantedKeys : List Int32) (keyNameFor : Int32 → String) : List (String × Json) :=
  decodeSelectedFrom data wantedKeys keyNameFor 0 []

end PgEddy
