import PgEddy.Lemmas.Histories

/-!
# Node reads

All readers of the node store see the same records: those that `read_node_at_offset` returns at some location. The search by id,
the sequential scan and the count are lists over them.
-/

namespace PgEddy

open PagedStore

/-- The records `read_node_at_offset` returns, in physical order. -/
def nodeReads (be : Backend) (snapshot : Option Snapshot) (rel : Relation) : List NodeRecord :=
  (versions rel).filterMap (fun lv => lv.2.read be snapshot)

/-- `read_node_at_offset` returns a record of the node at a location. -/
def ReadsAt (be : Backend) (snapshot : Option Snapshot) (rel : Relation) (nodeId : Int64) (loc : Nat × Nat) : Prop :=
  ∃ page r, rel[loc.1]? = some page ∧ readNodeAtOffset be page snapshot loc.2 = some r ∧ r.nodeId = nodeId

/-! ## Records -/

theorem decodeNode_fields {data : Bytes} {r : NodeRecord} (h : decodeNode data = some r) :
    r.nodeId = nodeIdOf data ∧ r.overflowBlkno = overflowOf data := by
  simp only [decodeNode] at h
  split at h
  · cases h
  · split at h
    · cases h
    · cases h; exact ⟨rfl, rfl⟩

theorem NodeVersion.read_eq_some {be : Backend} {snapshot : Option Snapshot} {v : NodeVersion} {r : NodeRecord} :
    v.read be snapshot = some r ↔
      xminVisible be snapshot v.hdr = true ∧ v.unmarked = true ∧ decodeNode v.data = some r := by
  simp only [NodeVersion.read]
  by_cases hx : xminVisible be snapshot v.hdr = true
  · by_cases hm : v.hdr.xmaxInvalid = true
    · simp [hx, hm, NodeVersion.unmarked]
    · simp [hx, hm, NodeVersion.unmarked]
  · simp [hx]

theorem NodeVersion.nodeId_of_read {be : Backend} {snapshot : Option Snapshot} {v : NodeVersion} {r : NodeRecord}
    (h : v.read be snapshot = some r) : r.nodeId = v.nodeId :=
  (decodeNode_fields (NodeVersion.read_eq_some.mp h).2.2).1

theorem readsAt_iff {be : Backend} {snapshot : Option Snapshot} {rel : Relation} {nodeId : Int64} {loc : Nat × Nat} :
    ReadsAt be snapshot rel nodeId loc ↔
      ∃ v, versionAt rel loc = some v ∧ v.nodeId = nodeId ∧ (v.read be snapshot).isSome := by
  constructor
  · rintro ⟨page, r, hp, hr, hid⟩
    rw [readNodeAtOffset_eq] at hr
    obtain ⟨v, hv, hr⟩ := Option.bind_eq_some_iff.mp hr
    exact ⟨v, versionAt_eq_some.mpr ⟨page, hp, hv⟩, (NodeVersion.nodeId_of_read hr).symm.trans hid, by rw [hr]; rfl⟩
  · rintro ⟨v, hv, hid, hr⟩
    obtain ⟨page, hp, hpv⟩ := versionAt_eq_some.mp hv
    obtain ⟨r, hr⟩ := Option.isSome_iff_exists.mp hr
    exact ⟨page, r, hp, by rw [readNodeAtOffset_eq, hpv, Option.bind_some, hr], (NodeVersion.nodeId_of_read hr).trans hid⟩

/-- A node is read at one location at most. -/
theorem ReadsAt.unique {be : Backend} {snapshot : Option Snapshot} {rel : Relation} (hu : UniqueUnmarked rel) {nodeId : Int64}
    {loc loc' : Nat × Nat} (h : ReadsAt be snapshot rel nodeId loc) (h' : ReadsAt be snapshot rel nodeId loc') : loc = loc' := by
  obtain ⟨v, hv, hid, hr⟩ := readsAt_iff.mp h
  obtain ⟨v', hv', hid', hr'⟩ := readsAt_iff.mp h'
  obtain ⟨r, hr⟩ := Option.isSome_iff_exists.mp hr
  obtain ⟨r', hr'⟩ := Option.isSome_iff_exists.mp hr'
  exact hu loc loc' v v' hv hv' (NodeVersion.read_eq_some.mp hr).2.1 (NodeVersion.read_eq_some.mp hr').2.1
    (hid.trans hid'.symm)

theorem mem_nodeReads_ids {be : Backend} {snapshot : Option Snapshot} {rel : Relation} (hn : NodePages rel)
    {nodeId : Int64} :
    nodeId ∈ (nodeReads be snapshot rel).map NodeRecord.nodeId ↔ ∃ loc, ReadsAt be snapshot rel nodeId loc := by
  simp only [nodeReads, List.mem_map, List.mem_filterMap]
  constructor
  · rintro ⟨r, ⟨⟨loc, v⟩, hm, hr⟩, rfl⟩
    exact ⟨loc, readsAt_iff.mpr ⟨v, (mem_versions hn).mp hm, (NodeVersion.nodeId_of_read hr).symm, by
      dsimp only at hr; rw [hr]; rfl⟩⟩
  · rintro ⟨loc, hl⟩
    obtain ⟨v, hv, hid, hr⟩ := readsAt_iff.mp hl
    obtain ⟨r, hr⟩ := Option.isSome_iff_exists.mp hr
    exact ⟨r, ⟨(loc, v), (mem_versions hn).mpr hv, hr⟩, (NodeVersion.nodeId_of_read hr).trans hid⟩

theorem versions_nodup (rel : Relation) : ((versions rel).map (fun lv => lv.1)).Nodup := by
  refine scan_places_nodup _ fun p b o x hx => ?_
  obtain ⟨v, -, rfl⟩ := Option.map_eq_some_iff.mp hx
  rfl

/-- No two records read have the same id. -/
theorem nodeReads_ids_nodup {be : Backend} {snapshot : Option Snapshot} {rel : Relation} (hn : NodePages rel)
    (hu : UniqueUnmarked rel) : ((nodeReads be snapshot rel).map NodeRecord.nodeId).Nodup := by
  have hv := List.pairwise_map.mp (versions_nodup rel)
  rw [List.Nodup, List.pairwise_map, nodeReads, List.pairwise_filterMap]
  refine hv.imp_of_mem fun {lv lw} hlv hlw hne r hr r' hr' hid => ?_
  refine hne (hu lv.1 lw.1 lv.2 lw.2 ((mem_versions hn).mp hlv) ((mem_versions hn).mp hlw)
    (NodeVersion.read_eq_some.mp hr).2.1 (NodeVersion.read_eq_some.mp hr').2.1 ?_)
  rw [← NodeVersion.nodeId_of_read hr, ← NodeVersion.nodeId_of_read hr', hid]

theorem ok_bind {α β : Type} (a : α) (f : α → Except PgError β) : ((.ok a : Except PgError α) >>= f) = f a := rfl

/-! ## Overflow blocks -/

/-- The record with the properties fetched from its overflow block. -/
def resolved (rel : Relation) (r : NodeRecord) : NodeRecord :=
  match resolveOverflow rel r with
  | .ok r' => r'
  | .error _ => r

theorem resolveOverflow_eq {rel : Relation} {r : NodeRecord} (h : r.overflowBlkno = 0 ∨ r.overflowBlkno < rel.length) :
    resolveOverflow rel r = .ok (resolved rel r) := by
  simp only [resolved]
  by_cases hc : r.overflowBlkno ≠ 0 ∧ r.propBytes = []
  · have hlt : r.overflowBlkno < rel.length := h.resolve_left hc.1
    simp only [resolveOverflow, hc, and_self, if_true, ne_eq, not_false_eq_true, readOverflowBlock, readBuffer,
      List.getElem?_eq_getElem hlt]
    rfl
  · simp only [resolveOverflow, if_neg hc]

@[simp] theorem nodeId_resolved (rel : Relation) (r : NodeRecord) : (resolved rel r).nodeId = r.nodeId := by
  simp only [resolved, resolveOverflow]
  by_cases hc : r.overflowBlkno ≠ 0 ∧ r.propBytes = []
  · rw [if_pos hc]
    cases readOverflowBlock rel r.overflowBlkno <;> rfl
  · rw [if_neg hc]

theorem overflow_of_read {be : Backend} {snapshot : Option Snapshot} {rel : Relation} (hs : AllStored rel) {loc : Nat × Nat}
    {v : NodeVersion} {r : NodeRecord} (hv : versionAt rel loc = some v) (hr : v.read be snapshot = some r) :
    r.overflowBlkno = 0 ∨ r.overflowBlkno < rel.length := by
  rw [(decodeNode_fields (NodeVersion.read_eq_some.mp hr).2.2).2]
  exact (hs loc v hv).overflow

/-! ## The search by id -/

/-- A cache that names a block of the relation, or none, for the node. -/
def CacheInRange (cache : LocationCache) (rel : Relation) (nodeId : Int64) : Prop :=
  ∀ blk off, cache nodeId = some (blk, off) → blk < rel.length

/-- The scan finds the node exactly if it is read somewhere. -/
theorem scanNodeById_cases {be : Backend} {snapshot : Option Snapshot} {rel : Relation} (hn : NodePages rel)
    (hs : AllStored rel) (nodeId : Int64) :
    (∃ loc r, ReadsAt be snapshot rel nodeId loc ∧ scanNodeById be rel nodeId snapshot = some r ∧ r.nodeId = nodeId ∧
        resolveOverflow rel r = .ok (resolved rel r)) ∨
      ((∀ loc, ¬ReadsAt be snapshot rel nodeId loc) ∧ scanNodeById be rel nodeId snapshot = none) := by
  cases hf : scanNodeById be rel nodeId snapshot with
  | none =>
    refine Or.inr ⟨fun loc hl => ?_, rfl⟩
    obtain ⟨v, hv, hid, hr⟩ := readsAt_iff.mp hl
    obtain ⟨r, hr⟩ := Option.isSome_iff_exists.mp hr
    rw [scanNodeById_eq, List.head?_eq_none_iff, List.filterMap_eq_nil_iff] at hf
    have hnone := hf (loc, v) ((mem_versions hn).mpr hv)
    simp [hr, NodeVersion.nodeId_of_read hr, hid] at hnone
  | some r =>
    rw [scanNodeById_eq] at hf
    obtain ⟨⟨loc, v⟩, hm, hr⟩ := List.mem_filterMap.mp (List.mem_of_head? hf)
    obtain ⟨hr, hid⟩ := Option.filter_eq_some_iff.mp hr
    have hv := (mem_versions hn).mp hm
    have hid' : r.nodeId = nodeId := by simpa using hid
    exact Or.inl ⟨loc, r, readsAt_iff.mpr ⟨v, hv, (NodeVersion.nodeId_of_read hr).symm.trans hid', by
      dsimp only at hr; rw [hr]; rfl⟩, rfl, hid', resolveOverflow_eq (overflow_of_read hs hv hr)⟩

/-- `find_node_by_id` returns a record of the node exactly if it is read somewhere, and never fails. -/
theorem findNodeById_cases (be : Backend) (snapshot : Option Snapshot) {rel : Relation} (hn : NodePages rel)
    (hs : AllStored rel) {cache : LocationCache} {nodeId : Int64} (hc : CacheInRange cache rel nodeId) :
    (∃ loc r, ReadsAt be snapshot rel nodeId loc ∧ findNodeById be cache rel nodeId snapshot = .ok (some r) ∧
        r.nodeId = nodeId) ∨
      ((∀ loc, ¬ReadsAt be snapshot rel nodeId loc) ∧ findNodeById be cache rel nodeId snapshot = .ok none) := by
  have hslow : (∃ loc r, ReadsAt be snapshot rel nodeId loc ∧
      findNodeById be .empty rel nodeId snapshot = .ok (some r) ∧ r.nodeId = nodeId) ∨
      ((∀ loc, ¬ReadsAt be snapshot rel nodeId loc) ∧ findNodeById be .empty rel nodeId snapshot = .ok none) := by
    simp only [findNodeById, LocationCache.empty]
    rcases scanNodeById_cases hn hs nodeId with ⟨loc, r, hl, hf, hid, hres⟩ | ⟨hl, hf⟩
    · refine Or.inl ⟨loc, resolved rel r, hl, ?_, by rw [nodeId_resolved, hid]⟩
      simp only [hf, hres]
      rfl
    · exact Or.inr ⟨hl, by rw [hf]; rfl⟩
  simp only [findNodeById, LocationCache.empty] at hslow
  cases hcn : cache nodeId with
  | none =>
    simp only [findNodeById, hcn]
    exact hslow
  | some bo =>
    obtain ⟨blk, off⟩ := bo
    have hlt := hc blk off hcn
    have hpage := List.getElem?_eq_getElem hlt
    have hread : readBuffer rel blk = .ok rel[blk] := by simp only [readBuffer, hpage]
    cases hr : readNodeAtOffset be rel[blk] snapshot off with
    | none =>
      simp only [findNodeById, hcn, hread, ok_bind, hr]
      exact hslow
    | some r =>
      by_cases hid : (r.nodeId == nodeId) = true
      · obtain ⟨v, hv, hrv⟩ := Option.bind_eq_some_iff.mp (readNodeAtOffset_eq .. ▸ hr)
        have hat : versionAt rel (blk, off) = some v := versionAt_eq_some.mpr ⟨_, hpage, hv⟩
        have hres := resolveOverflow_eq (overflow_of_read hs hat hrv)
        have hid' : r.nodeId = nodeId := by simpa using hid
        refine Or.inl ⟨(blk, off), resolved rel r, ⟨_, r, hpage, hr, hid'⟩, ?_, by rw [nodeId_resolved, hid']⟩
        simp only [findNodeById, hcn, hread, ok_bind, hr, hid, hres]
        rfl
      · simp only [findNodeById, hcn, hread, ok_bind, hr, hid]
        exact hslow

/-! ## The sequential scan -/

/-- The first hit of a search of the offsets from `k` on, and what a reading of the offsets behind it finds. -/
theorem findSome?_range' {β : Type} (f : Nat → Option β) :
    ∀ m k : Nat, ((List.range' k m).findSome? (fun o => (f o).map (fun r => (r, o))) = none ∧
        (List.range' k m).filterMap f = []) ∨
      ∃ r o, k ≤ o ∧ o < k + m ∧
        (List.range' k m).findSome? (fun o => (f o).map (fun r => (r, o))) = some (r, o) ∧
        (List.range' k m).filterMap f = r :: (List.range' (o + 1) (k + m - (o + 1))).filterMap f
  | 0, k => Or.inl ⟨rfl, rfl⟩
  | m + 1, k => by
    rw [List.range'_succ, List.findSome?_cons, List.filterMap_cons]
    cases hk : f k with
    | some r =>
      refine Or.inr ⟨r, k, Nat.le_refl k, by omega, rfl, ?_⟩
      rw [show k + (m + 1) - (k + 1) = m by omega]
    | none =>
      rcases findSome?_range' f m (k + 1) with ⟨h1, h2⟩ | ⟨r, o, hle, hlt, h1, h2⟩
      · exact Or.inl ⟨h1, h2⟩
      · refine Or.inr ⟨r, o, by omega, by omega, h1, ?_⟩
        rw [h2, show k + 1 + m - (o + 1) = k + (m + 1) - (o + 1) by omega]

section Scan

variable (be : Backend) (snapshot : Option Snapshot) (rel : Relation)

/-- The records a page still has from an offset on. -/
def pageReads (page : Page) (off : Nat) : List NodeRecord :=
  (List.range' off (nodeSize page + 1 - off)).filterMap (readNodeAtOffset be page snapshot)

/-- The records a scan has still to return. -/
def remaining (st : NodeScanState) : List NodeRecord :=
  match rel.drop st.currentBlk with
  | [] => []
  | page :: rest => pageReads be snapshot page st.currentOff ++ rest.flatMap (fun page => pageReads be snapshot page 1)

theorem remaining_begin : remaining be snapshot rel (.begin rel) = nodeReads be snapshot rel := by
  have hflat : rel.flatMap (fun page => pageReads be snapshot page 1) = nodeReads be snapshot rel := by
    rw [nodeReads, versions, ← scan_bind, scan]
    have hz : ∀ (l : List Page) (k : Nat), l.flatMap (fun page => pageReads be snapshot page 1) =
        (l.zipIdx k).flatMap (fun pb => scanPage nodeSize
          (fun p b o => (nodeRead p b o).bind (fun lv => lv.2.read be snapshot)) pb.1 pb.2) := by
      intro l
      induction l with
      | nil => intro k; rfl
      | cons p l ih =>
        intro k
        rw [List.flatMap_cons, List.zipIdx_cons, List.flatMap_cons, ih (k + 1)]
        refine congrArg (· ++ _) ?_
        rw [pageReads, scanPage, Nat.add_sub_cancel]
        refine List.filterMap_congr fun o _ => ?_
        rw [readNodeAtOffset_eq, nodeRead]
        cases p.versionAt o <;> rfl
    exact hz rel 0
  rw [← hflat, remaining]
  cases rel with
  | nil => rfl
  | cons p l => rfl

/-- A call of `next` returns the first record that remains, with its properties, and leaves the others; at the end it returns
none. -/
theorem nextLoop_spec {be : Backend} {snapshot : Option Snapshot} {rel : Relation} :
    ∀ (fuel : Nat) (st : NodeScanState), fuel = rel.length - st.currentBlk → 1 ≤ st.currentOff →
      (∀ r ∈ remaining be snapshot rel st, resolveOverflow rel r = .ok (resolved rel r)) →
      (remaining be snapshot rel st = [] ∧ ∃ st', st.nextLoop be rel snapshot fuel = .ok (none, st')) ∨
        ∃ r rs st', remaining be snapshot rel st = r :: rs ∧
          st.nextLoop be rel snapshot fuel = .ok (some (resolved rel r), st') ∧ remaining be snapshot rel st' = rs ∧
          st'.nblocks = st.nblocks ∧ 1 ≤ st'.currentOff
  | 0, st, hf, _, _ => by
    have hd : rel.drop st.currentBlk = [] := List.drop_eq_nil_of_le (by omega)
    exact Or.inl ⟨by rw [remaining, hd], st, rfl⟩
  | fuel + 1, st, hf, ho, hres => by
    have hlt : st.currentBlk < rel.length := by omega
    have hdrop : rel.drop st.currentBlk = rel[st.currentBlk] :: rel.drop (st.currentBlk + 1) := List.drop_eq_getElem_cons hlt
    have hrem : remaining be snapshot rel st = pageReads be snapshot rel[st.currentBlk] st.currentOff ++
        (rel.drop (st.currentBlk + 1)).flatMap (fun page => pageReads be snapshot page 1) := by
      rw [remaining, hdrop]
    have hread : readBuffer rel st.currentBlk = .ok rel[st.currentBlk] := by
      simp only [readBuffer, List.getElem?_eq_getElem hlt]
    have hnext : remaining be snapshot rel { st with currentBlk := st.currentBlk + 1, currentOff := 1 } =
        (rel.drop (st.currentBlk + 1)).flatMap (fun page => pageReads be snapshot page 1) := by
      simp only [remaining]
      cases rel.drop (st.currentBlk + 1) <;> rfl
    -- nothing left on this page: the loop goes on with the next block
    have hskip : pageReads be snapshot rel[st.currentBlk] st.currentOff = [] →
        (remaining be snapshot rel st = [] ∧ ∃ st', NodeScanState.nextLoop be rel snapshot fuel
            { st with currentBlk := st.currentBlk + 1, currentOff := 1 } = .ok (none, st')) ∨
          ∃ r rs st', remaining be snapshot rel st = r :: rs ∧ NodeScanState.nextLoop be rel snapshot fuel
            { st with currentBlk := st.currentBlk + 1, currentOff := 1 } = .ok (some (resolved rel r), st') ∧
            remaining be snapshot rel st' = rs ∧ st'.nblocks = st.nblocks ∧ 1 ≤ st'.currentOff := by
      intro hnil
      rw [hrem, hnil, List.nil_append, ← hnext] at hres ⊢
      exact nextLoop_spec fuel _ (by dsimp only; omega) (Nat.le_refl 1) hres
    rw [NodeScanState.nextLoop, hread, ok_bind]
    cases hov : isOverflowPage rel[st.currentBlk] with
    | true =>
      simp only [if_true]
      refine hskip ?_
      rw [pageReads, nodeSize, hov, if_pos rfl, show 0 + 1 - st.currentOff = 0 by omega]
      rfl
    | false =>
      have hoffs : rel[st.currentBlk].offsets.drop (st.currentOff - 1) =
          List.range' st.currentOff (nodeSize rel[st.currentBlk] + 1 - st.currentOff) := by
        rw [Page.offsets, List.drop_range', nodeSize, hov]
        simp only [Bool.false_eq_true, if_false]
        rw [show 1 + (st.currentOff - 1) * 1 = st.currentOff by omega,
          show rel[st.currentBlk].maxOffset - (st.currentOff - 1) = rel[st.currentBlk].maxOffset + 1 - st.currentOff by omega]
      simp only [Bool.false_eq_true, if_false, hoffs]
      rcases findSome?_range' (readNodeAtOffset be rel[st.currentBlk] snapshot)
        (nodeSize rel[st.currentBlk] + 1 - st.currentOff) st.currentOff with ⟨h1, h2⟩ | ⟨r, o, hle, hlto, h1, h2⟩
      · simp only [h1]
        exact hskip h2
      · have hrest : pageReads be snapshot rel[st.currentBlk] st.currentOff =
            r :: pageReads be snapshot rel[st.currentBlk] (o + 1) := by
          rw [pageReads, h2, pageReads]
          rw [show st.currentOff + (nodeSize rel[st.currentBlk] + 1 - st.currentOff) - (o + 1) =
            nodeSize rel[st.currentBlk] + 1 - (o + 1) by omega]
        rw [hrem, hrest, List.cons_append] at hres ⊢
        refine Or.inr ⟨r, _, { st with currentOff := o + 1 }, rfl, ?_, ?_, rfl, Nat.le_add_left 1 o⟩
        · simp only [h1, hres r List.mem_cons_self]
          rfl
        · simp only [remaining, hdrop]

/-- The whole scan returns the records read, each with its properties, in physical order. -/
theorem collect_eq {be : Backend} {snapshot : Option Snapshot} {rel : Relation} :
    ∀ (l : List NodeRecord) (st : NodeScanState) (fuel : Nat), l.length < fuel → st.nblocks = rel.length → 1 ≤ st.currentOff →
      remaining be snapshot rel st = l → (∀ r ∈ l, resolveOverflow rel r = .ok (resolved rel r)) →
      st.collect be rel snapshot fuel = .ok (l.map (resolved rel))
  | l, st, 0, hf, _, _, _, _ => absurd hf (Nat.not_lt_zero _)
  | l, st, fuel + 1, hf, hb, ho, hl, hres => by
    rw [NodeScanState.collect, NodeScanState.next, hb]
    rcases nextLoop_spec _ st rfl ho (hl ▸ hres) with ⟨hnil, st', hn⟩ | ⟨r, rs, st', hcons, hn, hrest, hb', ho'⟩
    · rw [hn, ← hl, hnil]
      rfl
    · rw [hn, ok_bind]
      rw [hcons] at hl
      subst hl
      simp only [List.length_cons] at hf
      have ih := collect_eq rs st' fuel (by omega) (hb'.trans hb) ho' hrest fun q hq => hres q (List.mem_cons_of_mem _ hq)
      simp only [ih]
      rfl

end Scan

/-- `count_nodes` counts the records read. -/
theorem countNodes_eq (be : Backend) (snapshot : Option Snapshot) (rel : Relation) :
    countNodes be rel snapshot = (nodeReads be snapshot rel).length := by
  have hbody : (fun (count : Nat) (pb : Page × Nat) => if isOverflowPage pb.1 then count
      else pb.1.offsets.foldl (fun count off => if (readNodeAtOffset be pb.1 snapshot off).isSome then count + 1 else count)
        count) =
      fun count pb => (List.range' 1 (nodeSize pb.1)).foldl
        (fun n o => if ((nodeRead pb.1 pb.2 o).bind (fun lv => lv.2.read be snapshot)).isSome then n + 1 else n) count := by
    funext count pb
    have hr : ∀ o, readNodeAtOffset be pb.1 snapshot o = (nodeRead pb.1 pb.2 o).bind (fun lv => lv.2.read be snapshot) := by
      intro o
      rw [readNodeAtOffset_eq, nodeRead]
      cases pb.1.versionAt o <;> rfl
    simp only [nodeSize, Page.offsets, hr]
    split <;> simp
  rw [nodeReads, versions, ← scan_bind, ← foldl_count_eq_length]
  exact congrArg (fun f => (blocks rel).foldl f 0) hbody

end PgEddy
