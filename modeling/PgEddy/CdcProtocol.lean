import PgEddy.Json
import PgEddy.Lib.Bytes
import PgEddy.Lib.Utf8
import PgEddy.Lib.Wire

/-!
# The change stream

`storage/cdc_protocol.rs`, the format of the frames the output plugin streams and of the logical messages it streams them
from, and `storage/cdc_message.rs`, which logs a message. The JSON library, which writes and parses the property maps, is a
parameter.
-/

namespace PgEddy

open ByteBuffer Utf8 Wire

/-! ## Rows, mutations and frames -/

/-- A parsed JSON value: its objects are maps. -/
abbrev JsonValue := { v : Json // v.Ordered }

/-- `as_object`. -/
def JsonValue.asObject : JsonValue → Option JsonMap
  | ⟨.object fields, h⟩ => some ⟨fields, h⟩
  | _ => none

/-- The map as a value. -/
def JsonMap.toValue (m : JsonMap) : JsonValue := ⟨.object m.fields, m.ordered⟩

@[simp] theorem JsonMap.asObject_toValue (m : JsonMap) : m.toValue.asObject = some m := rfl

instance : DecidableEq JsonMap := fun a b =>
  decidable_of_iff (a.fields = b.fields) ⟨fun h => by cases a; cases b; cases h; rfl, fun h => h ▸ rfl⟩

/-- The JSON library: `serde_json::to_vec` and `serde_json::from_slice`, each with the text of its error. -/
structure SerdeJson where
  toVec : JsonValue → Except String (List UInt8)
  fromSlice : List UInt8 → Except String JsonValue

/-- The library reads back every property map it has written. -/
def SerdeJson.RoundTrips (serde : SerdeJson) : Prop :=
  ∀ (m : JsonMap) (bs : List UInt8), serde.toVec m.toValue = .ok bs → serde.fromSlice bs = .ok m.toValue

structure NodeRow where
  nodeId : Int64
  labels : List String
  properties : JsonMap
  deriving DecidableEq

structure EdgeRow where
  relId : Int64
  relType : String
  sourceNodeId : Int64
  targetNodeId : Int64
  properties : JsonMap
  deriving DecidableEq

/-- One change of the graph. -/
inductive Mutation where
  | nodeInsert (new : NodeRow)
  | nodeUpdate (old new : NodeRow)
  | nodeDelete (old : NodeRow)
  | edgeInsert (new : EdgeRow)
  | edgeUpdate (old new : EdgeRow)
  | edgeDelete (old : EdgeRow)
  | graphReset
  deriving DecidableEq

/-- What the output plugin streams. -/
inductive Frame where
  | begin (xid : UInt32)
  | commit (xid : UInt32) (commitLsn endLsn : UInt64)
  | mutation (eventLsn : UInt64) (mutation : Mutation)
  deriving DecidableEq

/-! ## Limits and errors -/

/-- The bytes of `"PEDY"`. -/
def protocolMagic : List UInt8 := [0x50, 0x45, 0x44, 0x59]
def protocolMajor : Nat := 1
def headerLen : Nat := 12
def placeholderEventLsn : UInt64 := 0
def maxFieldBytes : Nat := 1024 * 1024
def maxFramePayloadBytes : Nat := 16 * 1024 * 1024
def maxLabels : Nat := 4096
def u16Max : Nat := 2 ^ 16 - 1
def u32Max : Nat := 2 ^ 32 - 1

def kindBegin : UInt8 := 0x01
def kindCommit : UInt8 := 0x02
def kindNodeInsert : UInt8 := 0x10
def kindNodeUpdate : UInt8 := 0x11
def kindNodeDelete : UInt8 := 0x12
def kindEdgeInsert : UInt8 := 0x20
def kindEdgeUpdate : UInt8 := 0x21
def kindEdgeDelete : UInt8 := 0x22
def kindGraphReset : UInt8 := 0x30

inductive ProtocolError where
  | headerTruncated
  | invalidMagic
  | unsupportedMajor (major : Nat)
  | unsupportedFlags (flags : UInt8)
  | unknownKind (kind : UInt8)
  | payloadLengthMismatch (declared actual : Nat)
  | payloadTruncated (offset needed remaining : Nat)
  | trailingPayload (trailing : Nat)
  | fieldTooLarge (field : String) (length maximum : Nat)
  | invalidUtf8 (field : String)
  | invalidJson (error : String)
  | propertiesNotObject
  | invalidLogicalMessageEnvelope
  deriving DecidableEq

/-- A byte in two hexadecimal digits. -/
def hexByte (b : UInt8) : String :=
  String.ofList [Nat.digitChar (b.toNat / 16), Nat.digitChar (b.toNat % 16)]

/-- The text of an error. -/
def ProtocolError.text : ProtocolError → String
  | .headerTruncated => s!"CDC frame is shorter than the {headerLen}-byte header"
  | .invalidMagic => "invalid CDC frame magic"
  | .unsupportedMajor major => s!"unsupported CDC protocol major version {major}"
  | .unsupportedFlags flags => s!"unsupported CDC frame flags 0x{hexByte flags}"
  | .unknownKind kind => s!"unknown CDC frame kind 0x{hexByte kind}"
  | .payloadLengthMismatch declared actual => s!"CDC payload length mismatch: declared {declared}, actual {actual}"
  | .payloadTruncated offset needed remaining =>
    s!"CDC payload is truncated at byte {offset}: need {needed} bytes, have {remaining}"
  | .trailingPayload trailing => s!"CDC payload has {trailing} trailing bytes"
  | .fieldTooLarge field length maximum =>
    s!"CDC {field} is too large: {length} bytes/items, maximum {maximum}"
  | .invalidUtf8 field => s!"CDC {field} is not valid UTF-8"
  | .invalidJson error => s!"CDC properties are not valid JSON: {error}"
  | .propertiesNotObject => "CDC properties must be a JSON object"
  | .invalidLogicalMessageEnvelope => "logical-message envelope must contain one mutation with event LSN zero"

/-! ## Writing -/

def writeU16 (value : UInt16) : List UInt8 := beBytes 2 value.toNat
def writeU32 (value : UInt32) : List UInt8 := beBytes 4 value.toNat
def writeU64 (value : UInt64) : List UInt8 := beBytes 8 value.toNat
def writeI64 (value : Int64) : List UInt8 := beBytes 8 value.toUInt64.toNat

/-- A byte string after its length. -/
def writeBytes (field : String) (value : List UInt8) : Except ProtocolError (List UInt8) :=
  if value.length > maxFieldBytes then .error (.fieldTooLarge field value.length maxFieldBytes)
  else if value.length > u32Max then .error (.fieldTooLarge field value.length u32Max)
  else .ok (writeU32 (UInt32.ofNat value.length) ++ value)

def writeString (field value : String) : Except ProtocolError (List UInt8) := writeBytes field (utf8Bytes value)

def writeProperties (serde : SerdeJson) (properties : JsonMap) : Except ProtocolError (List UInt8) := do
  let json ← (serde.toVec properties.toValue).mapError .invalidJson
  writeBytes "properties" json

def encodeNode (serde : SerdeJson) (row : NodeRow) : Except ProtocolError (List UInt8) := do
  if row.labels.length > maxLabels ∨ row.labels.length > u16Max then
    throw (.fieldTooLarge "label count" row.labels.length (min maxLabels u16Max))
  let labels ← writeAll (writeString "label") row.labels
  let properties ← writeProperties serde row.properties
  return writeI64 row.nodeId ++ (writeU16 (UInt16.ofNat row.labels.length) ++ (labels ++ properties))

def encodeEdge (serde : SerdeJson) (row : EdgeRow) : Except ProtocolError (List UInt8) := do
  let relType ← writeString "relationship type" row.relType
  let properties ← writeProperties serde row.properties
  return writeI64 row.relId ++ (relType ++ (writeI64 row.sourceNodeId ++ (writeI64 row.targetNodeId ++ properties)))

/-- Two rows one after the other. -/
def encodePair {ρ : Type} (encode : ρ → Except ProtocolError (List UInt8)) (old new : ρ) :
    Except ProtocolError (List UInt8) := do
  let old ← encode old
  let new ← encode new
  return old ++ new

def mutationKind : Mutation → UInt8
  | .nodeInsert _ => kindNodeInsert
  | .nodeUpdate _ _ => kindNodeUpdate
  | .nodeDelete _ => kindNodeDelete
  | .edgeInsert _ => kindEdgeInsert
  | .edgeUpdate _ _ => kindEdgeUpdate
  | .edgeDelete _ => kindEdgeDelete
  | .graphReset => kindGraphReset

def encodeMutationPayload (serde : SerdeJson) : Mutation → Except ProtocolError (List UInt8)
  | .nodeInsert new => encodeNode serde new
  | .nodeUpdate old new => encodePair (encodeNode serde) old new
  | .nodeDelete old => encodeNode serde old
  | .edgeInsert new => encodeEdge serde new
  | .edgeUpdate old new => encodePair (encodeEdge serde) old new
  | .edgeDelete old => encodeEdge serde old
  | .graphReset => .ok []

/-- The kind and the payload of a frame. -/
def framePayload (serde : SerdeJson) : Frame → Except ProtocolError (UInt8 × List UInt8)
  | .begin xid => .ok (kindBegin, writeU32 xid)
  | .commit xid commitLsn endLsn => .ok (kindCommit, writeU32 xid ++ (writeU64 commitLsn ++ writeU64 endLsn))
  | .mutation eventLsn mutation => do
    let payload ← encodeMutationPayload serde mutation
    return (mutationKind mutation, writeU64 eventLsn ++ payload)

/-- The header of a frame: the magic, the version, the kind, no flags and the length of the payload. -/
def frameHeader (kind : UInt8) (payloadLen : Nat) : List UInt8 :=
  protocolMagic ++ beBytes 2 protocolMajor ++ [kind, 0] ++ beBytes 4 payloadLen

def encodeFrame (serde : SerdeJson) (frame : Frame) : Except ProtocolError (List UInt8) := do
  let (kind, payload) ← framePayload serde frame
  if payload.length > maxFramePayloadBytes then
    throw (.fieldTooLarge "frame payload" payload.length maxFramePayloadBytes)
  if payload.length > u32Max then
    throw (.fieldTooLarge "frame payload" payload.length u32Max)
  return frameHeader kind payload.length ++ payload

/-! ## Reading -/

/-- A reading of a payload. -/
abbrev Payload (β : Type) := Reading UInt8 ProtocolError β

namespace Payload

def take (needed : Nat) : Payload (List UInt8) := Wire.take .payloadTruncated needed

def u16 : Payload UInt16 := do
  let bytes ← take 2
  return UInt16.ofNat (beNat bytes)

def u32 : Payload UInt32 := do
  let bytes ← take 4
  return UInt32.ofNat (beNat bytes)

def u64 : Payload UInt64 := do
  let bytes ← take 8
  return UInt64.ofNat (beNat bytes)

def i64 : Payload Int64 := do
  let bytes ← take 8
  return (UInt64.ofNat (beNat bytes)).toInt64

/-- A count or a length is within its limit. -/
def check (field : String) (length maximum : Nat) : Payload PUnit :=
  if length > maximum then throw (.fieldTooLarge field length maximum) else pure ⟨⟩

def bytes (field : String) : Payload (List UInt8) := do
  let length ← u32
  check field length.toNat maxFieldBytes
  take length.toNat

def string (field : String) : Payload String := do
  let bytes ← bytes field
  match ofUtf8? bytes with
  | some s => return s
  | none => throw (.invalidUtf8 field)

def properties (serde : SerdeJson) : Payload JsonMap := do
  let bytes ← bytes "properties"
  match serde.fromSlice bytes with
  | .error error => throw (.invalidJson error)
  | .ok value =>
    match value.asObject with
    | some m => return m
    | none => throw .propertiesNotObject

def node (serde : SerdeJson) : Payload NodeRow := do
  let nodeId ← i64
  let labelCount ← u16
  check "label count" labelCount.toNat maxLabels
  let labels ← times (string "label") labelCount.toNat
  let properties ← properties serde
  return { nodeId, labels, properties }

def edge (serde : SerdeJson) : Payload EdgeRow := do
  let relId ← i64
  let relType ← string "relationship type"
  let sourceNodeId ← i64
  let targetNodeId ← i64
  let properties ← properties serde
  return { relId, relType, sourceNodeId, targetNodeId, properties }

/-- Two rows one after the other. -/
def pair {ρ : Type} (row : Payload ρ) : Payload (ρ × ρ) := do
  let old ← row
  let new ← row
  return (old, new)

end Payload

def decodeMutationPayload (serde : SerdeJson) (kind : UInt8) : Payload Mutation :=
  if kind = kindNodeInsert then do return .nodeInsert (← Payload.node serde)
  else if kind = kindNodeUpdate then do
    let rows ← Payload.pair (Payload.node serde)
    return .nodeUpdate rows.1 rows.2
  else if kind = kindNodeDelete then do return .nodeDelete (← Payload.node serde)
  else if kind = kindEdgeInsert then do return .edgeInsert (← Payload.edge serde)
  else if kind = kindEdgeUpdate then do
    let rows ← Payload.pair (Payload.edge serde)
    return .edgeUpdate rows.1 rows.2
  else if kind = kindEdgeDelete then do return .edgeDelete (← Payload.edge serde)
  else if kind = kindGraphReset then return .graphReset
  else throw (.unknownKind kind)

/-- The kinds of frames that carry a mutation. -/
def mutationKinds : List UInt8 :=
  [kindNodeInsert, kindNodeUpdate, kindNodeDelete, kindEdgeInsert, kindEdgeUpdate, kindEdgeDelete, kindGraphReset]

/-- The frame of a kind, read from its payload. -/
def readFrame (serde : SerdeJson) (kind : UInt8) : Payload Frame :=
  if kind = kindBegin then do return .begin (← Payload.u32)
  else if kind = kindCommit then do
    let xid ← Payload.u32
    let commitLsn ← Payload.u64
    let endLsn ← Payload.u64
    return .commit xid commitLsn endLsn
  else if kind ∈ mutationKinds then do
    let eventLsn ← Payload.u64
    let mutation ← decodeMutationPayload serde kind
    return .mutation eventLsn mutation
  else throw (.unknownKind kind)

def decodeFrame (serde : SerdeJson) (encoded : List UInt8) : Except ProtocolError Frame := do
  if encoded.length < headerLen then throw .headerTruncated
  if encoded.take 4 ≠ protocolMagic then throw .invalidMagic
  let major := beNat (slice encoded 4 2)
  if major ≠ protocolMajor then throw (.unsupportedMajor major)
  let kind := encoded.getD 6 0
  let flags := encoded.getD 7 0
  if flags ≠ 0 then throw (.unsupportedFlags flags)
  let declared := beNat (slice encoded 8 4)
  let actual := encoded.length - headerLen
  if declared ≠ actual then throw (.payloadLengthMismatch declared actual)
  if actual > maxFramePayloadBytes then throw (.fieldTooLarge "frame payload" actual maxFramePayloadBytes)
  let (frame, reader) ← readFrame serde kind ⟨encoded.drop headerLen, 0⟩
  let trailing := reader.payload.length - reader.offset
  if trailing ≠ 0 then throw (.trailingPayload trailing)
  return frame

/-! ## Logical messages -/

def encodeLogicalMessage (serde : SerdeJson) (mutation : Mutation) : Except ProtocolError (List UInt8) :=
  encodeFrame serde (.mutation placeholderEventLsn mutation)

def decodeLogicalMessage (serde : SerdeJson) (encoded : List UInt8) : Except ProtocolError Mutation := do
  match ← decodeFrame serde encoded with
  | .mutation eventLsn mutation =>
    if eventLsn = placeholderEventLsn then return mutation else throw .invalidLogicalMessageEnvelope
  | _ => throw .invalidLogicalMessageEnvelope

/-- `cdc_message::emit`: the message logged for a mutation. An error ends the statement. -/
def emit (serde : SerdeJson) (mutation : Mutation) : Except String (List UInt8) :=
  (encodeLogicalMessage serde mutation).mapError (fun error => s!"pg_eddy: cannot encode CDC mutation: {error.text}")

end PgEddy
