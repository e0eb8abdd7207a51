import PgEddy.CdcProtocol

/-!
# Frames read back

Each writer of the change stream and its reader: numbers, byte strings, property maps, rows, mutations, and the payload of a
frame.
-/

namespace PgEddy

open ByteBuffer Utf8 Wire

namespace FrameAux

/-! ## Numbers -/

theorem reads_take (n : Nat) (bs : List UInt8) (h : bs.length = n) : Reads (Payload.take n) bs bs := by
  subst h
  exact Reads.take _ bs

theorem reads_u16 (v : UInt16) : Reads Payload.u16 (writeU16 v) v := by
  have hread := (reads_take 2 (writeU16 v) (length_beBytes _ _)).map (fun bs => UInt16.ofNat (beNat bs))
  rwa [writeU16, beNat_beBytes_of_lt _ _ v.toNat_lt, UInt16.ofNat_toNat] at hread

theorem reads_u32 (v : UInt32) : Reads Payload.u32 (writeU32 v) v := by
  have hread := (reads_take 4 (writeU32 v) (length_beBytes _ _)).map (fun bs => UInt32.ofNat (beNat bs))
  rwa [writeU32, beNat_beBytes_of_lt _ _ v.toNat_lt, UInt32.ofNat_toNat] at hread

theorem reads_u64 (v : UInt64) : Reads Payload.u64 (writeU64 v) v := by
  have hread := (reads_take 8 (writeU64 v) (length_beBytes _ _)).map (fun bs => UInt64.ofNat (beNat bs))
  rwa [writeU64, beNat_beBytes_of_lt _ _ v.toNat_lt, UInt64.ofNat_toNat] at hread

theorem reads_i64 (v : Int64) : Reads Payload.i64 (writeI64 v) v := by
  have hread := (reads_take 8 (writeI64 v) (length_beBytes _ _)).map (fun bs => (UInt64.ofNat (beNat bs)).toInt64)
  rwa [writeI64, beNat_beBytes_of_lt _ _ v.toUInt64.toNat_lt, UInt64.ofNat_toNat, Int64.toInt64_toUInt64] at hread

theorem check_eq {field : String} {length maximum : Nat} (h : length ≤ maximum) :
    Payload.check field length maximum = pure ⟨⟩ := by
  unfold Payload.check
  rw [if_neg (Nat.not_lt.mpr h)]

/-! ## Byte strings -/

/-- A byte string that was written was within the limit. -/
theorem writeBytes_ok {field : String} {value bs : List UInt8} (h : writeBytes field value = .ok bs) :
    value.length ≤ maxFieldBytes ∧ bs = writeU32 (UInt32.ofNat value.length) ++ value := by
  unfold writeBytes at h
  split at h
  · cases h
  · rename_i hmax
    split at h
    · cases h
    · exact ⟨Nat.le_of_not_lt hmax, (Except.ok.inj h).symm⟩

theorem inverts_bytes (field : String) : Inverts (Payload.bytes field) (writeBytes field) := by
  intro value bs h
  obtain ⟨hmax, rfl⟩ := writeBytes_ok h
  have hlen : (UInt32.ofNat value.length).toNat = value.length := by
    have hlt : value.length < 2 ^ 32 := Nat.lt_of_le_of_lt hmax (by decide)
    rw [UInt32.toNat_ofNat', Nat.mod_eq_of_lt hlt]
  apply (reads_u32 _).bind
  rw [hlen]
  exact Reads.check (check_eq hmax) (reads_take _ value rfl)

theorem inverts_string (field : String) : Inverts (Payload.string field) (writeString field) := by
  intro value bs h
  apply (inverts_bytes field (utf8Bytes value) bs h).last
  rw [ofUtf8?_utf8Bytes]

/-! ## Rows -/

variable {serde : SerdeJson}

theorem inverts_properties (hserde : serde.RoundTrips) : Inverts (Payload.properties serde) (writeProperties serde) := by
  intro m bs h
  unfold writeProperties at h
  cases hvec : serde.toVec m.toValue with
  | error e => rw [hvec] at h; cases h
  | ok json =>
    rw [hvec] at h
    have hslice : serde.fromSlice json = .ok m.toValue := hserde m json hvec
    apply (inverts_bytes "properties" json bs h).last
    rw [hslice]
    rfl

/-- A node row that was written had labels within the limit, and its bytes are those of its fields. -/
theorem encodeNode_ok {row : NodeRow} {bs : List UInt8} (h : encodeNode serde row = .ok bs) :
    row.labels.length ≤ maxLabels ∧ ∃ labels properties, writeAll (writeString "label") row.labels = .ok labels ∧
      writeProperties serde row.properties = .ok properties ∧
      bs = writeI64 row.nodeId ++ (writeU16 (UInt16.ofNat row.labels.length) ++ (labels ++ properties)) := by
  unfold encodeNode at h
  by_cases hcount : row.labels.length > maxLabels ∨ row.labels.length > u16Max
  · rw [if_pos hcount] at h
    cases h
  · rw [if_neg hcount] at h
    cases hlabels : writeAll (writeString "label") row.labels with
    | error e => rw [hlabels] at h; cases h
    | ok labels =>
      cases hprops : writeProperties serde row.properties with
      | error e => rw [hlabels, hprops] at h; cases h
      | ok properties =>
        rw [hlabels, hprops] at h
        exact ⟨by omega, labels, properties, rfl, rfl, (Except.ok.inj h).symm⟩

theorem inverts_node (hserde : serde.RoundTrips) : Inverts (Payload.node serde) (encodeNode serde) := by
  intro row bs h
  obtain ⟨hcount, labels, properties, hlabels, hprops, rfl⟩ := encodeNode_ok h
  have hlen : (UInt16.ofNat row.labels.length).toNat = row.labels.length := by
    have hlt : row.labels.length < 2 ^ 16 := Nat.lt_of_le_of_lt hcount (by decide)
    rw [UInt16.toNat_ofNat', Nat.mod_eq_of_lt hlt]
  apply (reads_i64 row.nodeId).bind
  apply (reads_u16 _).bind
  rw [hlen]
  apply Reads.check (check_eq hcount)
  apply (Reads.times (inverts_string "label") hlabels).bind
  exact (inverts_properties hserde row.properties properties hprops).map
    fun props => NodeRow.mk row.nodeId row.labels props

theorem encodeEdge_ok {row : EdgeRow} {bs : List UInt8} (h : encodeEdge serde row = .ok bs) :
    ∃ relType properties, writeString "relationship type" row.relType = .ok relType ∧
      writeProperties serde row.properties = .ok properties ∧
      bs = writeI64 row.relId ++
        (relType ++ (writeI64 row.sourceNodeId ++ (writeI64 row.targetNodeId ++ properties))) := by
  unfold encodeEdge at h
  cases htype : writeString "relationship type" row.relType with
  | error e => rw [htype] at h; cases h
  | ok relType =>
    cases hprops : writeProperties serde row.properties with
    | error e => rw [htype, hprops] at h; cases h
    | ok properties =>
      rw [htype, hprops] at h
      exact ⟨relType, properties, rfl, rfl, (Except.ok.inj h).symm⟩

theorem inverts_edge (hserde : serde.RoundTrips) : Inverts (Payload.edge serde) (encodeEdge serde) := by
  intro row bs h
  obtain ⟨relType, properties, htype, hprops, rfl⟩ := encodeEdge_ok h
  apply (reads_i64 row.relId).bind
  apply (inverts_string "relationship type" row.relType relType htype).bind
  apply (reads_i64 row.sourceNodeId).bind
  apply (reads_i64 row.targetNodeId).bind
  exact (inverts_properties hserde row.properties properties hprops).map
    fun props => EdgeRow.mk row.relId row.relType row.sourceNodeId row.targetNodeId props

/-! ## Mutations -/

theorem reads_pair {ρ : Type} {row : Payload ρ} {encode : ρ → Except ProtocolError (List UInt8)} (h : Inverts row encode)
    {old new : ρ} {bs : List UInt8} (hw : encodePair encode old new = .ok bs) :
    Reads (Payload.pair row) bs (old, new) := by
  unfold encodePair at hw
  cases hold : encode old with
  | error e => rw [hold] at hw; cases hw
  | ok front =>
    cases hnew : encode new with
    | error e => rw [hold, hnew] at hw; cases hw
    | ok rest =>
      rw [hold, hnew] at hw
      cases hw
      exact (h old front hold).bind ((h new rest hnew).map (old, ·))

/-- The payload of a mutation reads, under the kind of the mutation, as that mutation. -/
theorem reads_mutation (hserde : serde.RoundTrips) (m : Mutation) (bs : List UInt8)
    (h : encodeMutationPayload serde m = .ok bs) : Reads (decodeMutationPayload serde (mutationKind m)) bs m := by
  cases m with
  | nodeInsert new => exact (inverts_node hserde new bs h).map Mutation.nodeInsert
  | nodeUpdate old new => exact (reads_pair (inverts_node hserde) h).map fun rows => Mutation.nodeUpdate rows.1 rows.2
  | nodeDelete old => exact (inverts_node hserde old bs h).map Mutation.nodeDelete
  | edgeInsert new => exact (inverts_edge hserde new bs h).map Mutation.edgeInsert
  | edgeUpdate old new => exact (reads_pair (inverts_edge hserde) h).map fun rows => Mutation.edgeUpdate rows.1 rows.2
  | edgeDelete old => exact (inverts_edge hserde old bs h).map Mutation.edgeDelete
  | graphReset =>
    cases h
    exact Reads.pure Mutation.graphReset

/-! ## Frames -/

/-- The kind of a mutation is one of the kinds that carry one, and so neither of the other two. -/
theorem mutationKind_mem (m : Mutation) : mutationKind m ∈ mutationKinds := by
  cases m <;> simp [mutationKind, mutationKinds]

theorem ne_of_mem_mutationKinds : ∀ kind ∈ mutationKinds, kind ≠ kindBegin ∧ kind ≠ kindCommit := by
  intro kind hkind
  simp only [mutationKinds, List.mem_cons, List.not_mem_nil, or_false] at hkind
  obtain rfl | rfl | rfl | rfl | rfl | rfl | rfl := hkind <;> exact ⟨by decide, by decide⟩

theorem readFrame_mutation (m : Mutation) : readFrame serde (mutationKind m) = (do
    let eventLsn ← Payload.u64
    let mutation ← decodeMutationPayload serde (mutationKind m)
    return .mutation eventLsn mutation) := by
  obtain ⟨hbegin, hcommit⟩ := ne_of_mem_mutationKinds (mutationKind m) (mutationKind_mem m)
  unfold readFrame
  rw [if_neg hbegin, if_neg hcommit, if_pos (mutationKind_mem m)]

theorem framePayload_mutation_ok {lsn : UInt64} {m : Mutation} {kind : UInt8} {payload : List UInt8}
    (h : framePayload serde (.mutation lsn m) = .ok (kind, payload)) :
    kind = mutationKind m ∧ ∃ bs, encodeMutationPayload serde m = .ok bs ∧ payload = writeU64 lsn ++ bs := by
  simp only [framePayload] at h
  cases hm : encodeMutationPayload serde m with
  | error e => rw [hm] at h; cases h
  | ok bs =>
    rw [hm] at h
    cases h
    exact ⟨rfl, bs, rfl, rfl⟩

/-- The payload of a frame reads, under the kind of the frame, as that frame. -/
theorem reads_frame (hserde : serde.RoundTrips) (f : Frame) (kind : UInt8) (payload : List UInt8)
    (h : framePayload serde f = .ok (kind, payload)) : Reads (readFrame serde kind) payload f := by
  cases f with
  | begin xid =>
    cases h
    exact (reads_u32 xid).map Frame.begin
  | commit xid commitLsn endLsn =>
    cases h
    exact (reads_u32 xid).bind ((reads_u64 commitLsn).bind ((reads_u64 endLsn).map (Frame.commit xid commitLsn)))
  | mutation lsn m =>
    obtain ⟨rfl, bs, hm, rfl⟩ := framePayload_mutation_ok h
    rw [readFrame_mutation]
    exact (reads_u64 lsn).bind ((reads_mutation hserde m bs hm).map (Frame.mutation lsn))

/-- A frame that was encoded is its header and a payload within the limit. -/
theorem encodeFrame_ok {f : Frame} {bs : List UInt8} (h : encodeFrame serde f = .ok bs) :
    ∃ kind payload, framePayload serde f = .ok (kind, payload) ∧ payload.length ≤ maxFramePayloadBytes ∧
      bs = frameHeader kind payload.length ++ payload := by
  unfold encodeFrame at h
  cases hp : framePayload serde f with
  | error e => rw [hp] at h; cases h
  | ok kp =>
    obtain ⟨kind, payload⟩ := kp
    rw [hp] at h
    change (if payload.length > maxFramePayloadBytes then _ else _) = _ at h
    by_cases hmax : payload.length > maxFramePayloadBytes
    · rw [if_pos hmax] at h
      cases h
    · have hu32 : ¬payload.length > u32Max := by
        have hle : maxFramePayloadBytes ≤ u32Max := by decide
        omega
      rw [if_neg hmax] at h
      change (if payload.length > u32Max then _ else _) = _ at h
      rw [if_neg hu32] at h
      exact ⟨kind, payload, rfl, Nat.le_of_not_lt hmax, (Except.ok.inj h).symm⟩

/-- A payload within the limit makes a frame. -/
theorem encodeFrame_eq {f : Frame} {kind : UInt8} {payload : List UInt8} (hp : framePayload serde f = .ok (kind, payload))
    (hmax : payload.length ≤ maxFramePayloadBytes) :
    encodeFrame serde f = .ok (frameHeader kind payload.length ++ payload) := by
  have hu32 : ¬payload.length > u32Max := by
    have hle : maxFramePayloadBytes ≤ u32Max := by decide
    omega
  unfold encodeFrame
  rw [hp]
  change (if payload.length > maxFramePayloadBytes then _ else _) = _
  rw [if_neg (Nat.not_lt.mpr hmax)]
  change (if payload.length > u32Max then _ else _) = _
  rw [if_neg hu32]
  rfl

theorem length_frameHeader (kind : UInt8) (n : Nat) : (frameHeader kind n).length = headerLen := by
  simp only [frameHeader, List.length_append, length_beBytes, protocolMagic, headerLen, List.length_cons, List.length_nil]

/-- The fields of a header, read from a frame that starts with it. -/
theorem header_fields (kind : UInt8) (n : Nat) (hn : n < 2 ^ 32) (payload : List UInt8) :
    (frameHeader kind n ++ payload).take 4 = protocolMagic ∧
    beNat (slice (frameHeader kind n ++ payload) 4 2) = protocolMajor ∧
    (frameHeader kind n ++ payload).getD 6 0 = kind ∧ (frameHeader kind n ++ payload).getD 7 0 = 0 ∧
    beNat (slice (frameHeader kind n ++ payload) 8 4) = n := by
  have hbytes : (beBytes 4 n).length = 4 := length_beBytes 4 n
  have hnum : beNat (beBytes 4 n) = n := beNat_beBytes_of_lt 4 n hn
  obtain ⟨a, b, c, d, habcd⟩ : ∃ a b c d, beBytes 4 n = [a, b, c, d] := List.length_eq_four.mp hbytes
  have hmajor : beBytes 2 protocolMajor = [0, 1] := by decide
  rw [habcd] at hnum
  unfold frameHeader
  rw [habcd, hmajor]
  exact ⟨rfl, rfl, rfl, rfl, hnum⟩

theorem decodeFrame_of_reads {f : Frame} {kind : UInt8} {payload : List UInt8}
    (h : Reads (readFrame serde kind) payload f) (hmax : payload.length ≤ maxFramePayloadBytes) :
    decodeFrame serde (frameHeader kind payload.length ++ payload) = .ok f := by
  have hlt : payload.length < 2 ^ 32 := Nat.lt_of_le_of_lt hmax (by decide)
  obtain ⟨hmagic, hmajor, hkind, hflags, hdeclared⟩ := header_fields kind payload.length hlt payload
  have hlen : (frameHeader kind payload.length ++ payload).length = headerLen + payload.length := by
    rw [List.length_append, length_frameHeader]
  have hdrop : (frameHeader kind payload.length ++ payload).drop headerLen = payload :=
    List.drop_left' (length_frameHeader kind payload.length)
  have hread : readFrame serde kind ⟨payload, 0⟩ = .ok (f, ⟨payload, payload.length⟩) := h.run
  unfold decodeFrame
  simp only [hlen, hmagic, hmajor, hkind, hflags, hdeclared, hdrop, hread, Nat.add_sub_cancel_left,
    Nat.not_lt.mpr (Nat.le_add_right headerLen payload.length), Nat.not_lt.mpr hmax, ne_eq, not_true_eq_false, if_false]
  change (if ¬payload.length - payload.length = 0 then _ else _) = _
  rw [Nat.sub_self, if_neg (not_not.mpr rfl)]
  rfl

end FrameAux

end PgEddy
