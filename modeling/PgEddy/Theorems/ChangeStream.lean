import Mathlib.Data.List.Forall2
import PgEddy.Lemmas.Frames

/-!
# A message that was logged is streamed

Frames and logical messages are read back as they were written. What is streamed for a message is as long as the message: the
LSN takes the place of a placeholder of its own size. So a mutation that was logged can be streamed under any LSN.
-/

namespace PgEddy

open Wire FrameAux

namespace StreamAux

variable {serde : SerdeJson}

theorem decodeFrame_encodeFrame (hserde : serde.RoundTrips) {f : Frame} {bs : List UInt8}
    (h : encodeFrame serde f = .ok bs) : decodeFrame serde bs = .ok f := by
  obtain ⟨kind, payload, hp, hmax, rfl⟩ := encodeFrame_ok h
  exact decodeFrame_of_reads (reads_frame hserde f kind payload hp) hmax

theorem decodeLogicalMessage_encodeLogicalMessage (hserde : serde.RoundTrips) {m : Mutation} {bs : List UInt8}
    (h : encodeLogicalMessage serde m = .ok bs) : decodeLogicalMessage serde bs = .ok m := by
  have hframe : decodeFrame serde bs = .ok (.mutation placeholderEventLsn m) := decodeFrame_encodeFrame hserde h
  unfold decodeLogicalMessage
  rw [hframe]
  rfl

/-- The frame of a mutation is accepted under any LSN where it is under one. -/
theorem encodeFrame_any_lsn {m : Mutation} {lsn : UInt64} {bs : List UInt8}
    (h : encodeFrame serde (.mutation lsn m) = .ok bs) (lsn' : UInt64) :
    ∃ out, encodeFrame serde (.mutation lsn' m) = .ok out := by
  obtain ⟨kind, payload, hp, hmax, -⟩ := encodeFrame_ok h
  obtain ⟨rfl, body, hm, rfl⟩ := framePayload_mutation_ok hp
  have hp' : framePayload serde (.mutation lsn' m) = .ok (mutationKind m, writeU64 lsn' ++ body) := by
    simp only [framePayload, hm]
    rfl
  have hlen : (writeU64 lsn' ++ body).length = (writeU64 lsn ++ body).length := by
    rw [List.length_append, List.length_append, writeU64, writeU64, ByteBuffer.length_beBytes, ByteBuffer.length_beBytes]
  exact ⟨_, encodeFrame_eq hp' (hlen.trans_le hmax)⟩

end StreamAux

open StreamAux

/-- The change stream's codec. A frame that is encoded decodes to itself; a mutation that is encoded as a logical message
decodes to itself, and its frame is accepted under every LSN. -/
theorem change_stream_codec (serde : SerdeJson) (hserde : serde.RoundTrips) :
    (∀ f bs, encodeFrame serde f = .ok bs → decodeFrame serde bs = .ok f) ∧
    ∀ m bs, encodeLogicalMessage serde m = .ok bs → decodeLogicalMessage serde bs = .ok m ∧
      ∀ lsn, ∃ out, encodeFrame serde (.mutation lsn m) = .ok out := by
  constructor
  · intro f bs h
    exact decodeFrame_encodeFrame hserde h
  · intro m bs h
    refine ⟨decodeLogicalMessage_encodeLogicalMessage hserde h, ?_⟩
    intro lsn
    exact encodeFrame_any_lsn h lsn

namespace StreamAux

def emptyMap : JsonMap := { fields := [], ordered := by decide }

/-- The JSON library on the empty map, which it writes as a pair of braces. -/
def emptyMapJson : SerdeJson where
  toVec v := if v = emptyMap.toValue then .ok [0x7b, 0x7d] else .error "not the empty map"
  fromSlice bs := if bs = [0x7b, 0x7d] then .ok emptyMap.toValue else .error "not the empty map"

theorem emptyMapJson_roundTrips : emptyMapJson.RoundTrips := by
  intro m bs h
  simp only [emptyMapJson] at h ⊢
  split at h
  · rename_i hm
    cases h
    rw [if_pos rfl, hm]
  · cases h

/-- A labelled node without properties is created. -/
def personInsert : Mutation := .nodeInsert { nodeId := 7, labels := ["Person"], properties := emptyMap }

end StreamAux

/-- The codec on a node that is created: its message is a header, a zero LSN, the id, one label and the empty map. -/
theorem change_stream_codec_person :
    encodeLogicalMessage emptyMapJson personInsert = .ok
      ([0x50, 0x45, 0x44, 0x59, 0, 1, 0x10, 0, 0, 0, 0, 34] ++ List.replicate 15 0 ++ [7, 0, 1, 0, 0, 0, 6] ++
        [0x50, 0x65, 0x72, 0x73, 0x6f, 0x6e] ++ [0, 0, 0, 2, 0x7b, 0x7d]) ∧
    decodeLogicalMessage emptyMapJson
      ([0x50, 0x45, 0x44, 0x59, 0, 1, 0x10, 0, 0, 0, 0, 34] ++ List.replicate 15 0 ++ [7, 0, 1, 0, 0, 0, 6] ++
        [0x50, 0x65, 0x72, 0x73, 0x6f, 0x6e] ++ [0, 0, 0, 2, 0x7b, 0x7d]) = .ok personInsert ∧
    ∃ out, encodeFrame emptyMapJson (.mutation 77 personInsert) = .ok out := by
  have henc : encodeLogicalMessage emptyMapJson personInsert = .ok
      ([0x50, 0x45, 0x44, 0x59, 0, 1, 0x10, 0, 0, 0, 0, 34] ++ List.replicate 15 0 ++ [7, 0, 1, 0, 0, 0, 6] ++
        [0x50, 0x65, 0x72, 0x73, 0x6f, 0x6e] ++ [0, 0, 0, 2, 0x7b, 0x7d]) := by
    decide +kernel
  obtain ⟨hdec, hany⟩ := (change_stream_codec emptyMapJson emptyMapJson_roundTrips).2 personInsert _ henc
  exact ⟨henc, hdec, hany 77⟩

end PgEddy
