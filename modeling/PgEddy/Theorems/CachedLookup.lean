import PgEddy.Lemmas.Changes
import PgEddy.Lemmas.MirrorSteps
import PgEddy.Locations

/-!
# Looking up a node through the cache

A cached location is that of a node the relation had. While the relation only grows the location stays inside it, and a lookup
returns what the scan returns. `clear` makes the relation empty and leaves the caches of the sessions as they are.
-/

namespace PgEddy

open Machine

/-! ## A location inside the relation is harmless -/

section Lookup

variable {be : Backend} {snapshot : Option Snapshot} {rel : Relation} {cache : LocationCache} {nodeId : Int64}

/-- Two lookups that find a node find the same record. -/
theorem findNodeById_unique (hn : NodePages rel) (hu : UniqueUnmarked rel) {cache' : LocationCache} {r r' : NodeRecord}
    (h : findNodeById be cache rel nodeId snapshot = .ok (some r))
    (h' : findNodeById be cache' rel nodeId snapshot = .ok (some r')) : r = r' := by
  obtain ⟨loc, v, q, hv, hq, hid, hres⟩ := findNodeById_eq_some hn h
  obtain ⟨loc', v', q', hv', hq', hid', hres'⟩ := findNodeById_eq_some hn h'
  have hloc : loc = loc' := by
    refine hu loc loc' v v' hv hv' (NodeVersion.read_eq_some.mp hq).2.1 (NodeVersion.read_eq_some.mp hq').2.1 ?_
    rw [← NodeVersion.nodeId_of_read hq, ← NodeVersion.nodeId_of_read hq', hid, hid']
  subst hloc
  cases hv.symm.trans hv'
  cases hq.symm.trans hq'
  exact Except.ok.inj (hres.symm.trans hres')

/-- A lookup through a cache that names no block outside the relation is the scan. -/
theorem findNodeById_eq_scan (hn : NodePages rel) (hu : UniqueUnmarked rel) (hs : AllStored rel)
    (hc : CacheInRange cache rel nodeId) :
    findNodeById be cache rel nodeId snapshot = findNodeById be .empty rel nodeId snapshot ∧
      ∃ r, findNodeById be cache rel nodeId snapshot = .ok r := by
  have hempty : CacheInRange .empty rel nodeId := nofun
  rcases findNodeById_cases be snapshot hn hs hc with ⟨loc, r, hl, hf, -⟩ | ⟨hnone, hf⟩ <;>
    rcases findNodeById_cases be snapshot hn hs hempty with ⟨loc', r', hl', hf', -⟩ | ⟨hnone', hf'⟩
  · exact ⟨by rw [hf, hf', findNodeById_unique hn hu hf hf'], _, hf⟩
  · exact absurd hl (hnone' loc)
  · exact absurd hl' (hnone loc')
  · exact ⟨by rw [hf, hf'], _, hf⟩

end Lookup

/-! ## What is known of a cache -/

/-- What the events so far tell about the cache of a session: nothing has been cached, everything has been cached since the last
`clear`, or something may have been cached before it. -/
inductive CacheAge where
  | empty | current | stale
  deriving DecidableEq, Repr

/-- The age of the cache of a session after an event. -/
def CacheAge.after (session : Nat) (age : CacheAge) : LocationEvent → CacheAge
  | .cypher i _ => if i = session then .current else age
  | .recordLocations i _ => if i = session ∧ age = .empty then .current else age
  | .clear _ => if age = .empty then .empty else .stale
  | _ => age

/-- The age of the cache of a session after a history. -/
def cacheAge (session : Nat) (events : List LocationEvent) : CacheAge := events.foldl (CacheAge.after session) .empty

/-- No transaction that has called `clear` is rolled back. -/
def LocationEvent.KeepsClear (st : LocationState) : LocationEvent → Prop
  | .abort xid => ∀ t ∈ st.truncated, t.1 ≠ xid
  | _ => True

instance (st : LocationState) : DecidablePred (LocationEvent.KeepsClear st)
  | .abort xid => inferInstanceAs (Decidable (∀ t ∈ st.truncated, t.1 ≠ xid))
  | .begin | .commit _ | .cypher .. | .insertNode .. | .recordLocations .. | .dropLocations _ | .call .. | .updateEdgeProps ..
  | .clear _ => .isTrue trivial

namespace LocationAux

/-! ## Caches and blocks -/

/-- Every cached block is one of the first blocks. -/
def CacheBelow (cache : LocationCache) (nblocks : Nat) : Prop := ∀ nodeId blk off, cache nodeId = some (blk, off) → blk < nblocks

theorem cacheBelow_empty (nblocks : Nat) : CacheBelow .empty nblocks := nofun

theorem CacheBelow.mono {cache : LocationCache} {n m : Nat} (h : CacheBelow cache n) (hle : n ≤ m) : CacheBelow cache m :=
  fun nodeId blk off hc => Nat.lt_of_lt_of_le (h nodeId blk off hc) hle

theorem CacheBelow.insert {cache : LocationCache} {n blk : Nat} (h : CacheBelow cache n) (nodeId : Int64) (off : Nat)
    (hblk : blk < n) : CacheBelow (cache.insert nodeId blk off) n := by
  intro m blk' off' hc
  simp only [LocationCache.insert] at hc
  split at hc
  · cases hc
    exact hblk
  · exact h m blk' off' hc

/-- Locations inserted one after another. -/
theorem CacheBelow.foldl {α : Type} {nodeId : α → Int64} {blk off : α → Nat} {n : Nat} {rows : List α} {cache : LocationCache}
    (h : CacheBelow cache n) (hr : ∀ r ∈ rows, blk r < n) :
    CacheBelow (rows.foldl (fun cache r => cache.insert (nodeId r) (blk r) (off r)) cache) n := by
  induction rows generalizing cache with
  | nil => exact h
  | cons r rows ih =>
    exact ih (h.insert (nodeId r) (off r) (hr r List.mem_cons_self)) fun r' hr' => hr r' (List.mem_cons_of_mem _ hr')

/-- What holds of a session whose cache has an age, with a node relation of so many blocks. -/
structure SessionInv (s : LocationSession) (nblocks : Nat) (age : CacheAge) : Prop where
  unrecorded : ∀ e ∈ s.unrecorded, e.2.1 < nblocks
  inRange : age ≠ .stale → CacheBelow s.cache nblocks
  empty : age = .empty → s.cache = .empty

namespace SessionInv

variable {s : LocationSession} {n m : Nat} {age : CacheAge}

theorem new (n : Nat) (age : CacheAge) : SessionInv .new n age :=
  ⟨List.forall_mem_nil _, fun _ => cacheBelow_empty n, fun _ => rfl⟩

theorem mono (h : SessionInv s n age) (hle : n ≤ m) : SessionInv s m age :=
  ⟨fun e he => Nat.lt_of_lt_of_le (h.unrecorded e he) hle, fun ha => (h.inRange ha).mono hle, h.empty⟩

/-- After `clear` a cache that was empty is empty, and any other is stale. -/
theorem clear (h : SessionInv s n age) (hnone : s.unrecorded = []) (i : Nat) (xid : Xid) :
    SessionInv s 0 (age.after i (.clear xid)) := by
  refine ⟨by rw [hnone]; exact List.forall_mem_nil _, fun ha => ?_, fun ha => ?_⟩ <;> simp only [CacheAge.after] at ha <;>
    split at ha
  · next hempty =>
    rw [h.empty hempty]
    exact cacheBelow_empty 0
  · exact absurd rfl ha
  · next hempty => exact h.empty hempty
  · cases ha

/-- `cypher` loads the cache from the table. -/
theorem load (h : SessionInv s n age) (be : Backend) {rows : List LocationRow} (hrows : ∀ r ∈ rows, r.pageNum < n) (i : Nat)
    (xid : Xid) : SessionInv { s with cache := loadNodeLocationCache be rows } n (age.after i (.cypher i xid)) := by
  refine ⟨h.unrecorded, fun _ => ?_, fun ha => ?_⟩
  · exact CacheBelow.foldl (cacheBelow_empty n) fun r hr => hrows r (List.mem_of_mem_filter hr)
  · simp only [CacheAge.after, if_true] at ha
    cases ha

/-- Recorded locations are those of nodes in the relation. -/
theorem record (h : SessionInv s n age) (i : Nat) (xid : Xid) : SessionInv s.record n (age.after i (.recordLocations i xid)) := by
  refine ⟨List.forall_mem_nil _, fun ha => ?_, fun ha => ?_⟩ <;> simp only [CacheAge.after, true_and] at ha
  · have hage : age ≠ .stale := by
      rintro rfl
      exact ha rfl
    exact CacheBelow.foldl (h.inRange hage) h.unrecorded
  · split at ha
    · cases ha
    · next hne => exact absurd ha hne

end SessionInv

/-! ## The store -/

/-- The ids of the nodes come from the sequence. -/
def Numbered (nodes : Relation) (seq : Nat) : Prop :=
  ∀ loc v, versionAt nodes loc = some v → ∃ k ≤ seq, v.nodeId = Int64.ofNat k

/-- The next id of the sequence is new. -/
theorem Numbered.fresh {s : Store} {seq next : Nat} (h : Numbered s.nodes seq) (hn : NodePages s.nodes)
    (hnext : nextval seq = some next) (xid : Xid) (labelIds : List Int32) (propBytes : Bytes) :
    GraphOp.FreshNode s (.insertNode xid (Int64.ofNat next) labelIds propBytes) := by
  rintro ⟨loc, v⟩ hmem heq
  obtain ⟨rfl, hlt⟩ := Db.nextval_eq_some hnext
  obtain ⟨k, hk, hid⟩ := h loc v ((mem_versions hn).mp hmem)
  have hint := congrArg Int64.toInt (hid.symm.trans heq)
  rw [Int64.toInt_ofNat_of_lt hlt, Int64.toInt_ofNat_of_lt (by omega)] at hint
  omega

/-- What holds of the store and of the sequence of node ids. -/
structure NumberedStore (history : HistoryState) (seq : Nat) : Prop where
  inv : HistoryInv history
  numbered : Numbered history.store.nodes seq

/-- A step of the history with an id that is new and of the sequence. -/
theorem NumberedStore.step {pg : PgSys} {h h' : HistoryState} {op : HistoryOp} {seq seq' : Nat} (hi : NumberedStore h seq)
    (hf : op.FreshNode h) (hle : seq ≤ seq')
    (hid : ∀ xid nodeId labelIds propBytes, op = .call (.insertNode xid nodeId labelIds propBytes) →
      ∃ k ≤ seq', nodeId = Int64.ofNat k) (ht : h.step pg op = some h') :
    NumberedStore h' seq' ∧ h.store.nodes.length ≤ h'.store.nodes.length := by
  have hs := HistoryState.step_cases hi.inv.sound.toWellFormed ht
  have hold : Numbered h.store.nodes seq' := fun loc v hv =>
    (hi.numbered loc v hv).imp fun k hk => ⟨Nat.le_trans hk.1 hle, hk.2⟩
  have hkept : Numbered h'.store.nodes seq' ∧ h.store.nodes.length ≤ h'.store.nodes.length := by
    cases hs with
    | xact _ hst =>
      rw [hst]
      exact ⟨hold, Nat.le_refl _⟩
    | @call op hr _ he =>
      refine ⟨he.versions hold (fun _ _ hv => hv) fun nodeId slot labelIds inl ovfBlk blk off hnew => ?_, he.length_le⟩
      rw [nodeId_newVersion]
      rcases hnew with ⟨labelIds, propBytes, hop⟩ | ⟨loc, v, hv, rfl⟩
      · exact hid _ _ labelIds propBytes (congrArg HistoryOp.call hop)
      · exact hold loc v hv
    | props _ _ _ _ _ _ hst =>
      rw [hst]
      exact ⟨hold, Nat.le_refl _⟩
  exact ⟨⟨hi.inv.step hf hs, hkept.1⟩, hkept.2⟩

/-- A new node is in the relation. -/
theorem insertNode_block_lt {pg : PgSys} {h h' : HistoryState} {xid : Xid} {nodeId : Int64} {labelIds : List Int32}
    {propBytes : Bytes} {loc : Nat × Nat} (hn : NodePages h.store.nodes)
    (ht : h.step pg (.call (.insertNode xid nodeId labelIds propBytes)) = some h')
    (hr : (insertNode pg xid h.store nodeId labelIds propBytes).2 = .ok loc) : loc.1 < h'.store.nodes.length := by
  simp only [HistoryState.step] at ht
  split at ht
  · obtain ⟨t, hstep, rfl⟩ := Option.map_eq_some_iff.mp ht
    rw [GraphOp.step_eq hstep]
    have hres := insertNode_result pg xid nodeId labelIds propBytes hn
    simp only [GraphOp.call]
    generalize insertNode pg xid h.store nodeId labelIds propBytes = out at hres hr ⊢
    cases hres with
    | failed => cases hr
    | inserted _ _ hg hp _ _ hsp =>
      cases hr
      simp only [length_pushAt]
      exact Nat.lt_of_lt_of_le (List.getElem?_eq_some_iff.mp hp).1 hsp.grows.length_le
  · cases ht

/-- A step of the history that inserts no node. -/
theorem NumberedStore.step_of_ne {pg : PgSys} {h h' : HistoryState} {op : HistoryOp} {seq : Nat} (hi : NumberedStore h seq)
    (hne : ∀ xid nodeId labelIds propBytes, op ≠ .call (.insertNode xid nodeId labelIds propBytes))
    (ht : h.step pg op = some h') : NumberedStore h' seq ∧ h.store.nodes.length ≤ h'.store.nodes.length := by
  refine hi.step ?_ (Nat.le_refl _) (fun _ _ _ _ heq => absurd heq (hne _ _ _ _)) ht
  cases op with
  | call op =>
    cases op with
    | insertNode => exact absurd rfl (hne _ _ _ _)
    | updateNode | deleteNode | insertEdge | deleteEdge => trivial
  | begin | commit | abort | updateEdgeProps => trivial

/-- Nothing is stored after `clear`. -/
theorem NumberedStore.clear (xact : XactState) (wal : List WalRecord) : NumberedStore ⟨xact, ⟨[], [], wal⟩⟩ 0 where
  inv := ⟨(StoreInv.nil xact wal).sound, (StoreInv.nil xact wal).stored⟩
  numbered loc v hv := by simp [versionAt] at hv

/-! ## The machine -/

/-- What holds in every state of a history in which no `clear` is rolled back. -/
structure Inv (age : Nat → CacheAge) (st : LocationState) : Prop where
  store : NumberedStore st.history st.nodeIdSeq
  rows : ∀ r ∈ st.nodeLocation, r.pageNum < st.history.store.nodes.length
  sessions : ∀ i s, st.sessions[i]? = some s → SessionInv s st.history.store.nodes.length (age i)

namespace Inv

variable {age : Nat → CacheAge} {st : LocationState}

theorem start (sessions : Nat) : Inv (fun _ => .empty) (.start sessions) where
  store := NumberedStore.clear XactState.init []
  rows := List.forall_mem_nil _
  sessions i s hs := by
    rw [List.eq_of_mem_replicate (List.mem_of_getElem? hs)]
    exact SessionInv.new _ _

/-- The store goes on, and its relation does not shrink. -/
theorem withHistory (h : Inv age st) {history : HistoryState} {seq : Nat} (hs : NumberedStore history seq)
    (hle : st.history.store.nodes.length ≤ history.store.nodes.length) :
    Inv age { st with history := history, nodeIdSeq := seq } where
  store := hs
  rows r hr := Nat.lt_of_lt_of_le (h.rows r hr) hle
  sessions i s hi := (h.sessions i s hi).mono hle

/-- One session changes, and the ages of the others stay. -/
theorem setSession (h : Inv age st) {i : Nat} {s : LocationSession} {age' : Nat → CacheAge}
    (hs : SessionInv s st.history.store.nodes.length (age' i)) (hother : ∀ j, j ≠ i → age' j = age j) :
    Inv age' (st.setSession i s) where
  store := h.store
  rows := h.rows
  sessions j s' hj := by
    by_cases hji : j = i
    · subst hji
      simp only [LocationState.setSession, List.getElem?_set_self'] at hj
      obtain ⟨-, -, rfl⟩ := Option.map_eq_some_iff.mp hj
      exact hs
    · rw [hother j hji]
      exact h.sessions j s' (by rwa [LocationState.setSession, List.getElem?_set_ne (Ne.symm hji)] at hj)

/-- A step of the history that inserts no node. -/
theorem history (h : Inv age st) {pg : PgSys} {op : HistoryOp} {history : HistoryState}
    (hne : ∀ xid nodeId labelIds propBytes, op ≠ .call (.insertNode xid nodeId labelIds propBytes))
    (ht : st.history.step pg op = some history) : Inv age (st.withHistory history) :=
  have hs := h.store.step_of_ne hne ht
  h.withHistory hs.1 hs.2

/-- Every event keeps it, as long as no `clear` is rolled back. -/
theorem step {pg : PgSys} {e : LocationEvent} {st' : LocationState} (h : Inv age st) (hk : e.KeepsClear st)
    (ht : st.step pg e = some st') : Inv (fun i => (age i).after i e) st' := by
  cases e with
  | begin =>
    simp only [LocationState.step, Option.map_eq_some_iff] at ht
    obtain ⟨history, hh, rfl⟩ := ht
    exact h.history (by nofun) hh
  | commit xid =>
    simp only [LocationState.step, Option.map_eq_some_iff] at ht
    obtain ⟨history, hh, rfl⟩ := ht
    have hi := h.history (by nofun) hh
    exact ⟨hi.store, hi.rows, hi.sessions⟩
  | abort xid =>
    simp only [LocationState.step, Option.map_eq_some_iff] at ht
    obtain ⟨history, hh, rfl⟩ := ht
    have hnone : st.truncated.find? (fun t => t.1 == xid) = none := by
      rw [List.find?_eq_none]
      intro t hmem heq
      exact hk t hmem (eq_of_beq heq)
    rw [hnone]
    exact h.history (by nofun) hh
  | cypher i xid =>
    obtain ⟨s, hs, ht⟩ := Option.bind_eq_some_iff.mp ht
    split at ht
    · cases ht
      refine h.setSession ((h.sessions i s hs).load _ h.rows i xid) fun j hj => ?_
      simp only [CacheAge.after, if_neg (Ne.symm hj)]
    · cases ht
  | insertNode i xid labelIds propBytes =>
    obtain ⟨s, hs, ht⟩ := Option.bind_eq_some_iff.mp ht
    obtain ⟨seq, hseq, ht⟩ := Option.bind_eq_some_iff.mp ht
    obtain ⟨history, hh, ht⟩ := Option.bind_eq_some_iff.mp ht
    have hn := h.store.inv.sound.nodePages
    have hle : st.nodeIdSeq ≤ seq := (Db.nextval_eq_some hseq).1 ▸ Nat.le_succ _
    have hfresh : HistoryOp.FreshNode st.history (.call (.insertNode xid (Int64.ofNat seq) labelIds propBytes)) :=
      h.store.numbered.fresh hn hseq xid labelIds propBytes
    have hnew := h.store.step hfresh hle
      (fun _ _ _ _ heq => by cases heq; exact ⟨seq, Nat.le_refl _, rfl⟩) hh
    have hi := h.withHistory hnew.1 hnew.2
    split at ht
    · next blkno off hloc =>
      cases ht
      have hsession := hi.sessions i s hs
      refine hi.setSession ⟨fun e he => ?_, hsession.inRange, hsession.empty⟩ fun _ _ => rfl
      rcases List.mem_append.mp he with he | he
      · exact hsession.unrecorded e he
      · rw [List.mem_singleton.mp he]
        exact insertNode_block_lt hn hh hloc
    · cases ht
      exact hi
  | recordLocations i xid =>
    obtain ⟨s, hs, ht⟩ := Option.bind_eq_some_iff.mp ht
    split at ht
    · cases ht
      have hi : Inv (fun j => (age j).after j (.recordLocations i xid)) (st.setSession i s.record) := by
        refine h.setSession ((h.sessions i s hs).record i xid) fun j hj => ?_
        simp only [CacheAge.after, Ne.symm hj, false_and, if_false]
      refine ⟨hi.store, fun r hr => ?_, hi.sessions⟩
      rcases List.mem_append.mp hr with hr | hr
      · exact h.rows r hr
      · obtain ⟨e, he, rfl⟩ := List.mem_map.mp hr
        exact (h.sessions i s hs).unrecorded e he
    · cases ht
  | dropLocations i =>
    obtain ⟨s, hs, ht⟩ := Option.bind_eq_some_iff.mp ht
    cases ht
    have hsession := h.sessions i s hs
    exact h.setSession ⟨List.forall_mem_nil _, hsession.inRange, hsession.empty⟩ fun _ _ => rfl
  | call i xid c =>
    obtain ⟨s, hs, ht⟩ := Option.bind_eq_some_iff.mp ht
    obtain ⟨history, hh, rfl⟩ := Option.map_eq_some_iff.mp ht
    refine h.history (fun _ _ _ _ heq => ?_) hh
    cases c <;> cases heq
  | updateEdgeProps xid edgeId newPropBytes =>
    simp only [LocationState.step, Option.map_eq_some_iff] at ht
    obtain ⟨history, hh, rfl⟩ := ht
    exact h.history (by nofun) hh
  | clear xid =>
    simp only [LocationState.step] at ht
    split at ht
    · next hc =>
      cases ht
      refine ⟨NumberedStore.clear _ _, List.forall_mem_nil _, fun i s hs => ?_⟩
      have hnone := List.all_eq_true.mp hc.2 s (List.mem_of_getElem? hs)
      exact (h.sessions i s hs).clear (List.isEmpty_iff.mp hnone) i xid
    · cases ht

end Inv

/-- The invariant along a history. -/
theorem inv_of_run {pg : PgSys} {events : List LocationEvent} :
    ∀ {age : Nat → CacheAge} {st st' : LocationState}, Inv age st →
      EveryCall (LocationState.step pg) LocationEvent.KeepsClear st events →
      run (LocationState.step pg) st events = some st' → Inv (fun i => events.foldl (CacheAge.after i) (age i)) st' := by
  induction events with
  | nil =>
    intro age st st' hi _ hr
    cases hr
    exact hi
  | cons e events ih =>
    intro age st st' hi hk hr
    obtain ⟨u, hu, hur⟩ := run_cons.mp hr
    exact ih (hi.step (hk u hu).1 hu) (hk u hu).2 hur

end LocationAux

/-- Session 0 creates a node, session 1 loads its cache, calls `clear` and creates two nodes; session 0 calls `cypher`. -/
def clearBetween : List LocationEvent :=
  [.begin, .insertNode 0 3 [] [], .recordLocations 0 3, .commit 3, .begin, .cypher 1 4, .clear 4, .insertNode 1 4 [] [],
    .insertNode 1 4 [5] [1, 2], .recordLocations 1 4, .commit 4, .begin, .cypher 0 5]

/-- Right after `clear` a lookup of a node that the session has cached reads a block that the relation does not have. -/
theorem lookup_after_clear {pg : PgSys} {st st' : LocationState} {xid : Xid} (h : st.step pg (.clear xid) = some st')
    {cache : LocationCache} {nodeId : Int64} {blk off : Nat} (hc : cache nodeId = some (blk, off)) (be : Backend)
    (snapshot : Option Snapshot) :
    findNodeById be cache st'.history.store.nodes nodeId snapshot = .error (.couldNotReadBlock blk) := by
  simp only [LocationState.step] at h
  split at h
  · cases h
    simp only [findNodeById, hc, LocationState.cleared, readBuffer, List.getElem?_nil]
    rfl
  · cases h

/-- A session creates a node and calls `clear`; in its next statement it asks for the node. -/
def clearedNode : List LocationEvent :=
  [.begin, .insertNode 0 3 [] [], .recordLocations 0 3, .commit 3, .begin, .clear 4, .commit 4, .begin]

end PgEddy
