import PgEddy.EdgeStore

/-!
# Fields of records

What the readers get back from the bytes that `build_node_item_bytes_ovf` and `build_edge_item_bytes` lay out, and which fields
the patches in the page change. A data portion is a buffer of zeros under a list of writes, one per field; each field is read
back because no later write meets it.
-/

namespace PgEddy

open ByteBuffer

/-! ## Node records -/

/-- The writes of the label ids, one behind the other. -/
def labelWrites (off : Nat) : List Int32 → List (Nat × Bytes)
  | [] => []
  | lid :: lids => (off, i32ToLe lid) :: labelWrites (off + 4) lids

theorem writeLabelIds_eq (data : Bytes) (off : Nat) (labelIds : List Int32) :
    writeLabelIds data off labelIds = applyWrites data (labelWrites off labelIds) := by
  induction labelIds generalizing data off with
  | nil => rfl
  | cons lid lids ih => exact ih _ _

/-- Every write of label ids lies between the first one and the end of the last one. -/
theorem mem_labelWrites {off : Nat} {labelIds : List Int32} {w : Nat × Bytes} (h : w ∈ labelWrites off labelIds) :
    off ≤ w.1 ∧ w.1 + w.2.length ≤ off + labelIds.length * 4 := by
  induction labelIds generalizing off with
  | nil => exact absurd h List.not_mem_nil
  | cons lid lids ih =>
    simp only [List.length_cons]
    rcases List.mem_cons.mp h with rfl | h
    · simp only [length_i32ToLe]; omega
    · have := ih h; omega

theorem labelWrites_append (off : Nat) (xs ys : List Int32) :
    labelWrites off (xs ++ ys) = labelWrites off xs ++ labelWrites (off + 4 * xs.length) ys := by
  induction xs generalizing off with
  | nil => rfl
  | cons x xs ih =>
    have h4 : off + 4 + 4 * xs.length = off + 4 * (x :: xs).length := by simp only [List.length_cons]; omega
    simp only [List.cons_append, labelWrites, ih, h4]

/-- The writes of `build_node_item_bytes_ovf` before the label ids. -/
def nodeFixedWrites (nodeId : Int64) (adjSlotIdx labelCount nprop overflowBlkno : Nat) : List (Nat × Bytes) :=
  [(offNodeId, i64ToLe nodeId), (offAdjSlot, leBytes 2 adjSlotIdx), (offLabelCount, leBytes 1 labelCount),
    (offPropInlineLen, leBytes 2 nprop), (offPropOverflowPage, leBytes 4 overflowBlkno)]

/-- All writes of `build_node_item_bytes_ovf`. -/
def nodeWrites (nodeId : Int64) (adjSlotIdx : Nat) (labelIds : List Int32) (propBytes : Bytes) (overflowBlkno : Nat) :
    List (Nat × Bytes) :=
  nodeFixedWrites nodeId adjSlotIdx labelIds.length (if overflowBlkno = 0 then propBytes.length else 0) overflowBlkno ++
    (labelWrites offLabelIds labelIds ++
      if overflowBlkno = 0 then [(offLabelIds + labelIds.length * 4, propBytes)] else [])

/-- The data portion `build_node_item_bytes_ovf` lays out. -/
def nodeData (nodeId : Int64) (adjSlotIdx : Nat) (labelIds : List Int32) (propBytes : Bytes) (overflowBlkno : Nat) : Bytes :=
  applyWrites (List.replicate (nodeFixedDataSize + labelIds.length * 4 + propBytes.length) 0)
    (nodeWrites nodeId adjSlotIdx labelIds propBytes overflowBlkno)

/-- A new node item is a fresh header and the data portion. -/
theorem buildNodeItemBytesOvf_eq (xid : Xid) (nodeId : Int64) (adjSlotIdx : Nat) (labelIds : List Int32) (propBytes : Bytes)
    (overflowBlkno : Nat) :
    buildNodeItemBytesOvf xid nodeId adjSlotIdx labelIds propBytes overflowBlkno =
      .tuple (.fresh xid) (nodeData nodeId adjSlotIdx labelIds propBytes overflowBlkno) := by
  simp only [buildNodeItemBytesOvf, nodeData, nodeWrites, applyWrites_append, writeLabelIds_eq]
  split <;> rfl

section NodeData

variable (nodeId : Int64) (adjSlotIdx : Nat) (labelIds : List Int32) (propBytes : Bytes) (overflowBlkno : Nat)

theorem nodeWrites_inRange :
    InRange (List.replicate (nodeFixedDataSize + labelIds.length * 4 + propBytes.length) (0 : UInt8)).length
      (nodeWrites nodeId adjSlotIdx labelIds propBytes overflowBlkno) := by
  intro w hw
  simp only [List.length_replicate, nodeFixedDataSize]
  rcases List.mem_append.mp hw with hw | hw
  · simp only [nodeFixedWrites, List.mem_cons, List.not_mem_nil, or_false] at hw
    rcases hw with rfl | rfl | rfl | rfl | rfl <;>
      simp only [length_i64ToLe, length_leBytes, offNodeId, offAdjSlot, offLabelCount, offPropInlineLen,
        offPropOverflowPage] <;> omega
  · rcases List.mem_append.mp hw with hw | hw
    · have := mem_labelWrites hw
      simp only [offLabelIds] at this
      omega
    · split at hw
      · simp only [List.mem_singleton] at hw
        subst hw
        simp only [offLabelIds]
        omega
      · exact absurd hw List.not_mem_nil

@[simp] theorem length_nodeData :
    (nodeData nodeId adjSlotIdx labelIds propBytes overflowBlkno).length = 18 + labelIds.length * 4 + propBytes.length := by
  rw [nodeData, length_applyWrites (nodeWrites_inRange _ _ _ _ _), List.length_replicate, nodeFixedDataSize]

/-- What the label ids and the properties are written behind. -/
theorem apart_labels {o n : Nat} (h : o + n ≤ 18) :
    Apart o n (labelWrites offLabelIds labelIds ++
      if overflowBlkno = 0 then [(offLabelIds + labelIds.length * 4, propBytes)] else []) := by
  intro w hw
  left
  rcases List.mem_append.mp hw with hw | hw
  · have := mem_labelWrites hw
    simp only [offLabelIds] at this
    omega
  · split at hw
    · simp only [List.mem_singleton] at hw
      subst hw
      simp only [offLabelIds]
      omega
    · exact absurd hw List.not_mem_nil

/-- A field before the label ids is read back: `pre` and `post` are the fixed fields written before and after it. -/
theorem slice_nodeData_fixed (pre : List (Nat × Bytes)) (off : Nat) (bs : Bytes) (post : List (Nat × Bytes))
    (h : nodeFixedWrites nodeId adjSlotIdx labelIds.length (if overflowBlkno = 0 then propBytes.length else 0) overflowBlkno =
      pre ++ (off, bs) :: post)
    (hd : Apart off bs.length post) (hend : off + bs.length ≤ 18) :
    slice (nodeData nodeId adjSlotIdx labelIds propBytes overflowBlkno) off bs.length = bs := by
  have hr := nodeWrites_inRange nodeId adjSlotIdx labelIds propBytes overflowBlkno
  unfold nodeData
  simp only [nodeWrites, h, List.append_assoc, List.cons_append] at hr ⊢
  refine slice_applyWrites pre off bs _ hr ?_
  intro w hw
  rcases List.mem_append.mp hw with hw | hw
  · exact hd w hw
  · exact apart_labels labelIds propBytes overflowBlkno hend w hw

@[simp] theorem nodeIdOf_nodeData : nodeIdOf (nodeData nodeId adjSlotIdx labelIds propBytes overflowBlkno) = nodeId := by
  have h := slice_nodeData_fixed nodeId adjSlotIdx labelIds propBytes overflowBlkno [] offNodeId (i64ToLe nodeId) _ rfl
    (by simp [Apart, offNodeId, offAdjSlot, offLabelCount, offPropInlineLen, offPropOverflowPage])
    (by simp [offNodeId])
  rw [length_i64ToLe] at h
  rw [nodeIdOf, h, i64OfLe_i64ToLe]

@[simp] theorem adjSlotOf_nodeData :
    adjSlotOf (nodeData nodeId adjSlotIdx labelIds propBytes overflowBlkno) = adjSlotIdx % 65536 := by
  have h := slice_nodeData_fixed nodeId adjSlotIdx labelIds propBytes overflowBlkno [_] offAdjSlot (leBytes 2 adjSlotIdx) _ rfl
    (by simp [Apart, offAdjSlot, offLabelCount, offPropInlineLen, offPropOverflowPage])
    (by simp [offAdjSlot])
  rw [length_leBytes] at h
  rw [adjSlotOf, h]
  exact leNat_leBytes _ _

@[simp] theorem labelCountOf_nodeData :
    labelCountOf (nodeData nodeId adjSlotIdx labelIds propBytes overflowBlkno) = labelIds.length % 256 := by
  have h := slice_nodeData_fixed nodeId adjSlotIdx labelIds propBytes overflowBlkno [_, _] offLabelCount
    (leBytes 1 labelIds.length) _ rfl
    (by simp [Apart, offLabelCount, offPropInlineLen, offPropOverflowPage])
    (by simp [offLabelCount])
  rw [length_leBytes] at h
  rw [labelCountOf, h]
  exact leNat_leBytes _ _

@[simp] theorem propLenOf_nodeData :
    propLenOf (nodeData nodeId adjSlotIdx labelIds propBytes overflowBlkno) =
      (if overflowBlkno = 0 then propBytes.length else 0) % 65536 := by
  have h := slice_nodeData_fixed nodeId adjSlotIdx labelIds propBytes overflowBlkno [_, _, _] offPropInlineLen
    (leBytes 2 (if overflowBlkno = 0 then propBytes.length else 0)) _ rfl
    (by simp [Apart, offPropInlineLen, offPropOverflowPage])
    (by simp [offPropInlineLen])
  rw [length_leBytes] at h
  rw [propLenOf, h]
  exact leNat_leBytes _ _

@[simp] theorem overflowOf_nodeData :
    overflowOf (nodeData nodeId adjSlotIdx labelIds propBytes overflowBlkno) = overflowBlkno % 4294967296 := by
  have h := slice_nodeData_fixed nodeId adjSlotIdx labelIds propBytes overflowBlkno [_, _, _, _] offPropOverflowPage
    (leBytes 4 overflowBlkno) _ rfl (by simp [Apart]) (by simp [offPropOverflowPage])
  rw [length_leBytes] at h
  rw [overflowOf, h]
  exact leNat_leBytes _ _

/-- The label ids read back. -/
theorem labelIdsOf_nodeData :
    labelIdsOf (nodeData nodeId adjSlotIdx labelIds propBytes overflowBlkno) labelIds.length = labelIds := by
  refine List.ext_getElem (by simp [labelIdsOf]) fun i h1 h2 => ?_
  simp only [labelIdsOf, List.getElem_map, List.getElem_range]
  have hsplit : labelIds = labelIds.take i ++ labelIds[i] :: labelIds.drop (i + 1) := by simp
  have hw : labelWrites offLabelIds labelIds = labelWrites offLabelIds (labelIds.take i) ++
      (offLabelIds + i * 4, i32ToLe labelIds[i]) :: labelWrites (offLabelIds + i * 4 + 4) (labelIds.drop (i + 1)) := by
    conv_lhs => rw [hsplit, labelWrites_append]
    simp only [List.length_take, Nat.min_eq_left (Nat.le_of_lt h2), labelWrites, Nat.mul_comm 4 i]
  have hr := nodeWrites_inRange nodeId adjSlotIdx labelIds propBytes overflowBlkno
  have hs : slice (nodeData nodeId adjSlotIdx labelIds propBytes overflowBlkno) (offLabelIds + i * 4)
      (i32ToLe labelIds[i]).length = i32ToLe labelIds[i] := by
    unfold nodeData
    simp only [nodeWrites, hw, ← List.append_assoc] at hr ⊢
    simp only [List.append_assoc, List.cons_append] at hr ⊢
    simp only [← List.append_assoc (nodeFixedWrites _ _ _ _ _)] at hr ⊢
    refine slice_applyWrites _ _ _ _ hr fun w hw => Or.inl ?_
    simp only [length_i32ToLe]
    rcases List.mem_append.mp hw with hw | hw
    · exact (mem_labelWrites hw).1
    · split at hw
      · simp only [List.mem_singleton] at hw
        subst hw
        dsimp only
        omega
      · exact absurd hw List.not_mem_nil
  rw [length_i32ToLe] at hs
  rw [hs, i32OfLe_i32ToLe]

/-- The inline properties read back. -/
theorem slice_nodeData_props :
    slice (nodeData nodeId adjSlotIdx labelIds propBytes 0) (offLabelIds + labelIds.length * 4) propBytes.length = propBytes := by
  have hr := nodeWrites_inRange nodeId adjSlotIdx labelIds propBytes 0
  unfold nodeData
  simp only [nodeWrites, if_true, ← List.append_assoc] at hr ⊢
  exact slice_applyWrites _ _ _ _ hr (by simp [Apart])

end NodeData

/-- A record that stays within the limits of the code decodes to what was stored. With an overflow block the property bytes
are left to that block. -/
theorem decodeNode_nodeData (nodeId : Int64) (adjSlotIdx : Nat) (labelIds : List Int32) (propBytes : Bytes)
    (overflowBlkno : Nat) (hl : labelIds.length ≤ maxLabelsPerNode) (hp : propBytes.length ≤ propInlineMax)
    (ho : overflowBlkno ≤ maxBlocks) :
    decodeNode (nodeData nodeId adjSlotIdx labelIds propBytes overflowBlkno) = some {
      nodeId := nodeId, adjSlotIdx := adjSlotIdx % 65536, overflowBlkno := overflowBlkno, labelIds := labelIds,
      propBytes := if overflowBlkno = 0 then propBytes else [] } := by
  simp only [maxLabelsPerNode, propInlineMax, maxBlocks] at hl hp ho
  have hlc : labelIds.length % 256 = labelIds.length := Nat.mod_eq_of_lt (by omega)
  have hpl : (if overflowBlkno = 0 then propBytes.length else 0) % 65536 = if overflowBlkno = 0 then propBytes.length else 0 :=
    Nat.mod_eq_of_lt (by split <;> omega)
  have hov : overflowBlkno % 4294967296 = overflowBlkno := Nat.mod_eq_of_lt (by omega)
  have h1 : ¬18 + labelIds.length * 4 + propBytes.length < nodeFixedDataSize := by simp only [nodeFixedDataSize]; omega
  have h2 : ¬18 + labelIds.length * 4 + propBytes.length <
      offLabelIds + labelIds.length * 4 + (if overflowBlkno = 0 then propBytes.length else 0) := by
    simp only [offLabelIds]; split <;> omega
  simp only [decodeNode, length_nodeData, labelCountOf_nodeData, propLenOf_nodeData, nodeIdOf_nodeData, adjSlotOf_nodeData,
    overflowOf_nodeData, hlc, hpl, hov, h1, h2, if_false, labelIdsOf_nodeData]
  by_cases h0 : overflowBlkno = 0
  · subst h0
    simp only [if_true, slice_nodeData_props]
    cases propBytes <;> simp
  · simp only [if_neg h0, Nat.lt_irrefl, if_false]

/-! ## The patch of the adjacency slot -/

/-- The patch of `insert_node` stores the slot. -/
theorem adjSlotOf_patch (data : Bytes) (slot : Nat) (h : nodeFixedDataSize ≤ data.length) :
    adjSlotOf (writeAt data offAdjSlot (leBytes 2 slot)) = slot % 65536 := by
  simp only [nodeFixedDataSize] at h
  have hs := slice_writeAt_self data offAdjSlot (leBytes 2 slot) (by simp only [offAdjSlot]; omega)
  rw [length_leBytes] at hs
  rw [adjSlotOf, hs]
  exact leNat_leBytes _ _

/-- The writes of `build_node_item_bytes_ovf` behind the adjacency slot. -/
def nodeTailWrites (labelIds : List Int32) (propBytes : Bytes) (overflowBlkno : Nat) : List (Nat × Bytes) :=
  [(offLabelCount, leBytes 1 labelIds.length),
    (offPropInlineLen, leBytes 2 (if overflowBlkno = 0 then propBytes.length else 0)),
    (offPropOverflowPage, leBytes 4 overflowBlkno)] ++
    (labelWrites offLabelIds labelIds ++
      if overflowBlkno = 0 then [(offLabelIds + labelIds.length * 4, propBytes)] else [])

/-- The data portion with the slot patched is the one built with that slot. -/
theorem patch_nodeData (nodeId : Int64) (adjSlotIdx slot : Nat) (labelIds : List Int32) (propBytes : Bytes)
    (overflowBlkno : Nat) :
    writeAt (nodeData nodeId adjSlotIdx labelIds propBytes overflowBlkno) offAdjSlot (leBytes 2 slot) =
      nodeData nodeId slot labelIds propBytes overflowBlkno := by
  have hr := nodeWrites_inRange nodeId adjSlotIdx labelIds propBytes overflowBlkno
  obtain ⟨z, hz⟩ : ∃ z, z = List.replicate (nodeFixedDataSize + labelIds.length * 4 + propBytes.length) (0 : UInt8) :=
    ⟨_, rfl⟩
  have hzl : 18 ≤ z.length := by rw [hz, List.length_replicate, nodeFixedDataSize]; omega
  have hdata : ∀ a, nodeData nodeId a labelIds propBytes overflowBlkno =
      applyWrites (writeAt (writeAt z offNodeId (i64ToLe nodeId)) offAdjSlot (leBytes 2 a))
        (nodeTailWrites labelIds propBytes overflowBlkno) := fun a => by rw [hz]; rfl
  have h8 : (writeAt z offNodeId (i64ToLe nodeId)).length = z.length :=
    length_writeAt _ _ _ (by simp only [length_i64ToLe, offNodeId]; omega)
  have h10 : (writeAt (writeAt z offNodeId (i64ToLe nodeId)) offAdjSlot (leBytes 2 adjSlotIdx)).length = z.length := by
    rw [length_writeAt _ _ _ (by simp only [length_leBytes, h8, offAdjSlot]; omega), h8]
  have htail : InRange z.length (nodeTailWrites labelIds propBytes overflowBlkno) := fun w hw => by
    rw [hz]
    exact hr w (List.mem_cons_of_mem _ (List.mem_cons_of_mem _ hw))
  have hapart : Apart offAdjSlot (leBytes 2 slot).length (nodeTailWrites labelIds propBytes overflowBlkno) := by
    intro w hw
    rcases List.mem_append.mp hw with hw | hw
    · simp only [List.mem_cons, List.not_mem_nil, or_false] at hw
      rcases hw with rfl | rfl | rfl <;>
        simp only [length_leBytes, offAdjSlot, offLabelCount, offPropInlineLen, offPropOverflowPage] <;> omega
    · have := apart_labels labelIds propBytes overflowBlkno (o := offAdjSlot) (n := 2) (by decide) w hw
      rwa [length_leBytes]
  rw [hdata, hdata, writeAt_applyWrites (by rwa [h10]) (by rw [h10, length_leBytes]; simp only [offAdjSlot]; omega) hapart,
    writeAt_writeAt_self _ _ _ _ (by simp only [h8, offAdjSlot]; omega) (by simp only [length_leBytes])]

/-- The record `insert_node` leaves on a page: the item it built, with the slot and the location patched in. -/
theorem patched_item (xid : Xid) (nodeId : Int64) (adjSlotIdx : Nat) (labelIds : List Int32) (propBytes : Bytes)
    (overflowBlkno slot blkno off : Nat) :
    ((buildNodeItemBytesOvf xid nodeId adjSlotIdx labelIds propBytes overflowBlkno).setAdjSlot slot).setCtid blkno off =
      .tuple { HeapTupleHeader.fresh xid with ctid := some (blkno, off) }
        (nodeData nodeId slot labelIds propBytes overflowBlkno) := by
  simp only [buildNodeItemBytesOvf_eq, Item.setAdjSlot, Item.setCtid, Item.mapHdr, Item.mapData, patch_nodeData]

/-! ## Edge records -/

/-- All writes of `build_edge_item_bytes`. -/
def edgeWrites (edgeId : Int64) (relTypeId : Int32) (sourceNodeId targetNodeId : Int64)
    (nextOutPg nextOutSl nextInPg nextInSl : Nat) (propBytes : Bytes) : List (Nat × Bytes) :=
  [(offEdgeRelId, i64ToLe edgeId), (offEdgeRelTypeId, i32ToLe relTypeId), (offEdgeSourceNodeId, i64ToLe sourceNodeId),
    (offEdgeTargetNodeId, i64ToLe targetNodeId), (offEdgeNextOutPage, leBytes 4 nextOutPg),
    (offEdgeNextOutSlot, leBytes 2 nextOutSl), (offEdgeNextInPage, leBytes 4 nextInPg),
    (offEdgeNextInSlot, leBytes 2 nextInSl), (offEdgePropInlineLen, leBytes 2 propBytes.length),
    (offEdgePropOverflowPage, leBytes 4 0), (offEdgePropData, propBytes)]

/-- The data portion `build_edge_item_bytes` lays out. -/
def edgeData (edgeId : Int64) (relTypeId : Int32) (sourceNodeId targetNodeId : Int64)
    (nextOutPg nextOutSl nextInPg nextInSl : Nat) (propBytes : Bytes) : Bytes :=
  applyWrites (List.replicate (edgeFixedDataSize + max propInlineMax propBytes.length) 0)
    (edgeWrites edgeId relTypeId sourceNodeId targetNodeId nextOutPg nextOutSl nextInPg nextInSl propBytes)

section EdgeData

variable (edgeId : Int64) (relTypeId : Int32) (sourceNodeId targetNodeId : Int64)
  (nextOutPg nextOutSl nextInPg nextInSl : Nat) (propBytes : Bytes)

/-- A new edge item is a fresh header and the data portion. -/
theorem buildEdgeItemBytes_eq (xid : Xid) :
    buildEdgeItemBytes xid edgeId relTypeId sourceNodeId targetNodeId nextOutPg nextOutSl nextInPg nextInSl propBytes =
      .tuple (.fresh xid)
        (edgeData edgeId relTypeId sourceNodeId targetNodeId nextOutPg nextOutSl nextInPg nextInSl propBytes) := rfl

theorem edgeWrites_inRange :
    InRange (List.replicate (edgeFixedDataSize + max propInlineMax propBytes.length) (0 : UInt8)).length
      (edgeWrites edgeId relTypeId sourceNodeId targetNodeId nextOutPg nextOutSl nextInPg nextInSl propBytes) := by
  intro w hw
  simp only [List.length_replicate, edgeFixedDataSize]
  simp only [edgeWrites, List.mem_cons, List.not_mem_nil, or_false] at hw
  rcases hw with rfl | rfl | rfl | rfl | rfl | rfl | rfl | rfl | rfl | rfl | rfl <;>
    simp only [length_i64ToLe, length_i32ToLe, length_leBytes, offEdgeRelId, offEdgeRelTypeId, offEdgeSourceNodeId,
      offEdgeTargetNodeId, offEdgeNextOutPage, offEdgeNextOutSlot, offEdgeNextInPage, offEdgeNextInSlot,
      offEdgePropInlineLen, offEdgePropOverflowPage, offEdgePropData] <;> omega

@[simp] theorem length_edgeData :
    (edgeData edgeId relTypeId sourceNodeId targetNodeId nextOutPg nextOutSl nextInPg nextInSl propBytes).length =
      46 + max 512 propBytes.length := by
  rw [edgeData, length_applyWrites (edgeWrites_inRange _ _ _ _ _ _ _ _ _), List.length_replicate]
  rfl

/-- A field is read back: `pre` and `post` are the fields written before and after it. -/
theorem slice_edgeData (pre : List (Nat × Bytes)) (off : Nat) (bs : Bytes) (post : List (Nat × Bytes))
    (h : edgeWrites edgeId relTypeId sourceNodeId targetNodeId nextOutPg nextOutSl nextInPg nextInSl propBytes =
      pre ++ (off, bs) :: post) (hd : ∀ w ∈ post, off + bs.length ≤ w.1) :
    slice (edgeData edgeId relTypeId sourceNodeId targetNodeId nextOutPg nextOutSl nextInPg nextInSl propBytes)
      off bs.length = bs := by
  have hr := edgeWrites_inRange edgeId relTypeId sourceNodeId targetNodeId nextOutPg nextOutSl nextInPg nextInSl propBytes
  rw [edgeData]
  rw [h] at hr ⊢
  exact slice_applyWrites pre off bs post hr fun w hw => Or.inl (hd w hw)

@[simp] theorem edgeIdOf_edgeData :
    edgeIdOf (edgeData edgeId relTypeId sourceNodeId targetNodeId nextOutPg nextOutSl nextInPg nextInSl propBytes) =
      edgeId := by
  have h := slice_edgeData edgeId relTypeId sourceNodeId targetNodeId nextOutPg nextOutSl nextInPg nextInSl propBytes
    [] offEdgeRelId (i64ToLe edgeId) _ rfl (by simp [offEdgeRelId, offEdgeRelTypeId, offEdgeSourceNodeId,
      offEdgeTargetNodeId, offEdgeNextOutPage, offEdgeNextOutSlot, offEdgeNextInPage, offEdgeNextInSlot,
      offEdgePropInlineLen, offEdgePropOverflowPage, offEdgePropData])
  rw [length_i64ToLe] at h
  rw [edgeIdOf, h, i64OfLe_i64ToLe]

@[simp] theorem relTypeIdOf_edgeData :
    relTypeIdOf (edgeData edgeId relTypeId sourceNodeId targetNodeId nextOutPg nextOutSl nextInPg nextInSl propBytes) =
      relTypeId := by
  have h := slice_edgeData edgeId relTypeId sourceNodeId targetNodeId nextOutPg nextOutSl nextInPg nextInSl propBytes
    [_] offEdgeRelTypeId (i32ToLe relTypeId) _ rfl (by simp [offEdgeRelTypeId, offEdgeSourceNodeId,
      offEdgeTargetNodeId, offEdgeNextOutPage, offEdgeNextOutSlot, offEdgeNextInPage, offEdgeNextInSlot,
      offEdgePropInlineLen, offEdgePropOverflowPage, offEdgePropData])
  rw [length_i32ToLe] at h
  rw [relTypeIdOf, h, i32OfLe_i32ToLe]

@[simp] theorem sourceOf_edgeData :
    sourceOf (edgeData edgeId relTypeId sourceNodeId targetNodeId nextOutPg nextOutSl nextInPg nextInSl propBytes) =
      sourceNodeId := by
  have h := slice_edgeData edgeId relTypeId sourceNodeId targetNodeId nextOutPg nextOutSl nextInPg nextInSl propBytes
    [_, _] offEdgeSourceNodeId (i64ToLe sourceNodeId) _ rfl (by simp [offEdgeSourceNodeId,
      offEdgeTargetNodeId, offEdgeNextOutPage, offEdgeNextOutSlot, offEdgeNextInPage, offEdgeNextInSlot,
      offEdgePropInlineLen, offEdgePropOverflowPage, offEdgePropData])
  rw [length_i64ToLe] at h
  rw [sourceOf, h, i64OfLe_i64ToLe]

@[simp] theorem targetOf_edgeData :
    targetOf (edgeData edgeId relTypeId sourceNodeId targetNodeId nextOutPg nextOutSl nextInPg nextInSl propBytes) =
      targetNodeId := by
  have h := slice_edgeData edgeId relTypeId sourceNodeId targetNodeId nextOutPg nextOutSl nextInPg nextInSl propBytes
    [_, _, _] offEdgeTargetNodeId (i64ToLe targetNodeId) _ rfl (by simp [offEdgeTargetNodeId, offEdgeNextOutPage,
      offEdgeNextOutSlot, offEdgeNextInPage, offEdgeNextInSlot, offEdgePropInlineLen, offEdgePropOverflowPage,
      offEdgePropData])
  rw [length_i64ToLe] at h
  rw [targetOf, h, i64OfLe_i64ToLe]

/-- The next pointers read back, cut to 32 and 16 bits. -/
theorem nextOf_edgeData (isOutChain : Bool) :
    nextOf (edgeData edgeId relTypeId sourceNodeId targetNodeId nextOutPg nextOutSl nextInPg nextInSl propBytes)
        isOutChain =
      if isOutChain then (nextOutPg % 4294967296, nextOutSl % 65536) else (nextInPg % 4294967296, nextInSl % 65536) := by
  have h1 := slice_edgeData edgeId relTypeId sourceNodeId targetNodeId nextOutPg nextOutSl nextInPg nextInSl propBytes
    [_, _, _, _] offEdgeNextOutPage (leBytes 4 nextOutPg) _ rfl (by simp [offEdgeNextOutPage,
      offEdgeNextOutSlot, offEdgeNextInPage, offEdgeNextInSlot, offEdgePropInlineLen, offEdgePropOverflowPage,
      offEdgePropData])
  have h2 := slice_edgeData edgeId relTypeId sourceNodeId targetNodeId nextOutPg nextOutSl nextInPg nextInSl propBytes
    [_, _, _, _, _] offEdgeNextOutSlot (leBytes 2 nextOutSl) _ rfl (by simp [offEdgeNextOutSlot, offEdgeNextInPage,
      offEdgeNextInSlot, offEdgePropInlineLen, offEdgePropOverflowPage, offEdgePropData])
  have h3 := slice_edgeData edgeId relTypeId sourceNodeId targetNodeId nextOutPg nextOutSl nextInPg nextInSl propBytes
    [_, _, _, _, _, _] offEdgeNextInPage (leBytes 4 nextInPg) _ rfl (by simp [offEdgeNextInPage,
      offEdgeNextInSlot, offEdgePropInlineLen, offEdgePropOverflowPage, offEdgePropData])
  have h4 := slice_edgeData edgeId relTypeId sourceNodeId targetNodeId nextOutPg nextOutSl nextInPg nextInSl propBytes
    [_, _, _, _, _, _, _] offEdgeNextInSlot (leBytes 2 nextInSl) _ rfl (by simp [offEdgeNextInSlot,
      offEdgePropInlineLen, offEdgePropOverflowPage, offEdgePropData])
  rw [length_leBytes] at h1 h2 h3 h4
  cases isOutChain <;> simp [nextOf, h1, h2, h3, h4, leNat_leBytes]

@[simp] theorem edgePropLenOf_edgeData :
    edgePropLenOf (edgeData edgeId relTypeId sourceNodeId targetNodeId nextOutPg nextOutSl nextInPg nextInSl propBytes) =
      propBytes.length % 65536 := by
  have h := slice_edgeData edgeId relTypeId sourceNodeId targetNodeId nextOutPg nextOutSl nextInPg nextInSl propBytes
    [_, _, _, _, _, _, _, _] offEdgePropInlineLen (leBytes 2 propBytes.length) _ rfl
    (by simp [offEdgePropInlineLen, offEdgePropOverflowPage, offEdgePropData])
  rw [length_leBytes] at h
  rw [edgePropLenOf, h]
  exact leNat_leBytes _ _

theorem slice_edgeData_props :
    slice (edgeData edgeId relTypeId sourceNodeId targetNodeId nextOutPg nextOutSl nextInPg nextInSl propBytes)
      offEdgePropData propBytes.length = propBytes :=
  slice_edgeData edgeId relTypeId sourceNodeId targetNodeId nextOutPg nextOutSl nextInPg nextInSl propBytes
    [_, _, _, _, _, _, _, _, _, _] offEdgePropData propBytes [] rfl (by simp)

/-- A record within the limits of the code decodes to what was stored. -/
theorem decodeEdgeRecord_edgeData (blkno off : Nat) (hp : propBytes.length ≤ propInlineMax) :
    decodeEdgeRecord
        (edgeData edgeId relTypeId sourceNodeId targetNodeId nextOutPg nextOutSl nextInPg nextInSl propBytes) blkno off =
      some ⟨edgeId, relTypeId, sourceNodeId, targetNodeId, propBytes, blkno, off, nextOutPg % 4294967296, nextOutSl % 65536,
        nextInPg % 4294967296, nextInSl % 65536⟩ := by
  simp only [propInlineMax] at hp
  have hpl : propBytes.length % 65536 = propBytes.length := Nat.mod_eq_of_lt (by omega)
  have h46 : ¬46 + max 512 propBytes.length < edgeFixedDataSize := by simp only [edgeFixedDataSize]; omega
  have hend : ¬46 + max 512 propBytes.length < edgeFixedDataSize + propBytes.length := by
    simp only [edgeFixedDataSize]; omega
  simp only [decodeEdgeRecord, length_edgeData, edgePropLenOf_edgeData, hpl, h46, hend, if_false, edgeIdOf_edgeData,
    relTypeIdOf_edgeData, sourceOf_edgeData, targetOf_edgeData, slice_edgeData_props, nextOf_edgeData, if_true,
    Bool.false_eq_true]

end EdgeData

end PgEddy
