import PgEddy.Sessions
import PgEddy.Lib.Runs
import PgEddy.Lemmas.NodeOps
import PgEddy.Lemmas.GraphSteps

/-!
# Updates and deletes that overlap

The write step of a call does not look again at the version its find step met. Two updates that find the same version both write
a next version of the node. Exactly then the node ends up with two versions without a deleter.
-/

namespace PgEddy

open Machine

/-- For each node id there is at most one LP_NORMAL item with HEAP_XMAX_INVALID set. -/
def AtMostOneUnmarked (st : SessionState) : Prop :=
  ∀ lv ∈ versions st.store.nodes, ∀ lw ∈ versions st.store.nodes,
    lv.2.unmarked = true → lw.2.unmarked = true → lv.2.nodeId = lw.2.nodeId → lv.1 = lw.1

instance (st : SessionState) : Decidable (AtMostOneUnmarked st) :=
  inferInstanceAs (Decidable (∀ lv ∈ versions st.store.nodes, ∀ lw ∈ versions st.store.nodes,
    lv.2.unmarked = true → lw.2.unmarked = true → lv.2.nodeId = lw.2.nodeId → lv.1 = lw.1))

/-- Ids handed out by the sequence are new. -/
def SessionOp.Fresh (st : SessionState) : SessionOp → Prop
  | .insertNode _ nodeId _ _ => ∀ lv ∈ versions st.store.nodes, lv.2.nodeId ≠ nodeId
  | _ => True

instance (st : SessionState) : DecidablePred (SessionOp.Fresh st)
  | .insertNode _ nodeId _ _ => inferInstanceAs (Decidable (∀ lv ∈ versions st.store.nodes, lv.2.nodeId ≠ nodeId))
  | .findForUpdate .. | .findForDelete .. | .write .. => .isTrue trivial

/-- There is room for the next version of a node: on the page of the version met, or on another one. -/
def roomForUpdate (s : Store) (p : PendingCall) (newLabelIds : List Int32) (newPropBytes : Bytes) : Bool :=
  let itemSize := (buildNodeItemBytes p.xid p.nodeId p.adjSlotIdx newLabelIds newPropBytes).len
  (s.nodes[p.blkno]?).any (fun page => page.fits itemSize) ||
    (findOrExtendPage (setXmaxAt s.nodes p.blkno p.off p.xid) itemSize).toOption.isSome

/-- The write step of an update that has room comes while the version it met has no deleter yet, or when the node has no
version left without a deleter. -/
def SessionOp.WritesInTime (st : SessionState) : SessionOp → Prop
  | .write session =>
    ∀ p ∈ st.pending session, ∀ u ∈ p.update, roomForUpdate st.store p u.1 u.2 = true →
      (versionAt st.store.nodes (p.blkno, p.off)).any (fun v => v.unmarked) = true ∨
        ∀ lv ∈ versions st.store.nodes, lv.2.unmarked = true → lv.2.nodeId ≠ p.nodeId
  | _ => True

namespace RacesAux

/-- What a call has found stays there: a version of its node, with or without a deleter. -/
structure Found (nodes : Relation) (p : PendingCall) : Prop where
  version : ∃ v, versionAt nodes (p.blkno, p.off) = some v ∧ v.nodeId = p.nodeId
  limits : ∀ u ∈ p.update, u.1.length ≤ maxLabelsPerNode ∧ u.2.length ≤ propInlineMax

/-- The invariant of the sessions. -/
structure Inv (st : SessionState) : Prop where
  nodePages : NodePages st.store.nodes
  found : ∀ session, ∀ p ∈ st.pending session, Found st.store.nodes p

theorem atMostOneUnmarked_iff {st : SessionState} (hn : NodePages st.store.nodes) :
    AtMostOneUnmarked st ↔ UniqueUnmarked st.store.nodes := by
  constructor
  · intro h loc loc' v v' hv hv' hu hu' hid
    exact h (loc, v) ((mem_versions hn).mpr hv) (loc', v') ((mem_versions hn).mpr hv') hu hu' hid
  · rintro h ⟨loc, v⟩ hv ⟨loc', v'⟩ hv' hu hu' hid
    exact h loc loc' v v' ((mem_versions hn).mp hv) ((mem_versions hn).mp hv') hu hu' hid

/-- A node version stays a version of the same node. -/
def Persists (rel rel' : Relation) : Prop :=
  ∀ loc v, versionAt rel loc = some v → ∃ v', versionAt rel' loc = some v' ∧ v'.nodeId = v.nodeId

theorem Persists.grows {rel rel' : Relation} (hg : Grows rel rel') : Persists rel rel' :=
  fun loc v hv => ⟨v, hg.versionAt loc ▸ hv, rfl⟩

theorem Persists.trans {rel rel' rel'' : Relation} (h : Persists rel rel') (h' : Persists rel' rel'') : Persists rel rel'' := by
  intro loc v hv
  obtain ⟨v', hv', hid'⟩ := h loc v hv
  obtain ⟨v'', hv'', hid''⟩ := h' loc v' hv'
  exact ⟨v'', hv'', hid''.trans hid'⟩

theorem Persists.setXmaxAt {rel : Relation} {blk off : Nat} {v : NodeVersion} (xid : Xid)
    (hv : versionAt rel (blk, off) = some v) : Persists rel (setXmaxAt rel blk off xid) := by
  intro loc w hw
  rw [versionAt_setXmaxAt hv]
  by_cases he : loc = (blk, off)
  · rw [if_pos he]
    rw [he] at hw
    cases hv.symm.trans hw
    exact ⟨_, rfl, rfl⟩
  · exact ⟨w, by rw [if_neg he, hw], rfl⟩

theorem Persists.pushAt {rel : Relation} {blk : Nat} {page : Page} {v : NodeVersion} (hp : rel[blk]? = some page)
    (hl : nodeFixedDataSize ≤ v.data.length) : Persists rel (pushAt rel blk v) := by
  intro loc w hw
  rw [versionAt_pushAt hp hl]
  by_cases he : loc = (blk, page.maxOffset + 1)
  · rw [he] at hw
    obtain ⟨p, hp', hpw⟩ := versionAt_eq_some.mp hw
    cases hp.symm.trans hp'
    have := (Page.offset_of_versionAt hpw).2
    omega
  · exact ⟨w, by rw [if_neg he, hw], rfl⟩

theorem Found.persists {rel rel' : Relation} {p : PendingCall} (h : Found rel p) (hp : Persists rel rel') : Found rel' p := by
  obtain ⟨v, hv, hid⟩ := h.version
  obtain ⟨v', hv', hid'⟩ := hp _ v hv
  exact ⟨⟨v', hv', hid'.trans hid⟩, h.limits⟩

/-- A new unmarked version leaves at most one per node exactly if its node had none. -/
theorem uniqueUnmarked_pushAt_iff {rel : Relation} (h : UniqueUnmarked rel) {blk : Nat} {page : Page} {v : NodeVersion}
    (hp : rel[blk]? = some page) (hl : nodeFixedDataSize ≤ v.data.length) (hv : v.unmarked = true) :
    UniqueUnmarked (pushAt rel blk v) ↔ ∀ loc w, versionAt rel loc = some w → w.unmarked → w.nodeId ≠ v.nodeId := by
  constructor
  · intro h' loc w hw hu hid
    have hne : ¬loc = (blk, page.maxOffset + 1) := by
      rintro rfl
      obtain ⟨p, hp', hpw⟩ := versionAt_eq_some.mp hw
      cases hp.symm.trans hp'
      have := (Page.offset_of_versionAt hpw).2
      omega
    refine hne (h' loc (blk, page.maxOffset + 1) w v ?_ ?_ hu hv hid)
    · rw [versionAt_pushAt hp hl, if_neg hne, hw]
    · rw [versionAt_pushAt hp hl, if_pos rfl]
  · exact fun hnew => h.pushAt hp hl hnew

/-- After a mark at the version met, the node has no unmarked version left exactly if the version met was unmarked or none
was. -/
theorem none_left_iff {rel : Relation} (h : UniqueUnmarked rel) {blk off : Nat} {v : NodeVersion} (xid : Xid)
    (hv : versionAt rel (blk, off) = some v) :
    (∀ loc w, versionAt (setXmaxAt rel blk off xid) loc = some w → w.unmarked → w.nodeId ≠ v.nodeId) ↔
      (v.unmarked = true ∨ ∀ loc w, versionAt rel loc = some w → w.unmarked → w.nodeId ≠ v.nodeId) := by
  constructor
  · intro hnone
    by_cases hvu : v.unmarked = true
    · exact Or.inl hvu
    · refine Or.inr fun loc w hw hu => ?_
      have hne : ¬loc = (blk, off) := by
        rintro rfl
        cases hv.symm.trans hw
        exact hvu hu
      exact hnone loc w (by rw [versionAt_setXmaxAt hv, if_neg hne, hw]) hu
  · rintro (hvu | hnone) loc w hw hu
    · obtain ⟨hne, hw'⟩ := versionAt_setXmaxAt_unmarked hv hw hu
      intro hid
      exact hne (h loc (blk, off) w v hw' hv hu hvu hid)
    · exact hnone loc w (versionAt_setXmaxAt_unmarked hv hw hu).2 hu

/-! ### The steps -/

theorem Inv.empty : Inv SessionState.empty where
  nodePages := wellFormed_empty.nodePages
  found := by intro session p hp; cases hp

/-- The invariant survives a change of the store that keeps the pages and the versions, and the end of a call. -/
theorem Inv.store {st : SessionState} (h : Inv st) {t : Store} (hn : NodePages t.nodes)
    (hp : Persists st.store.nodes t.nodes) : Inv { st with store := t } where
  nodePages := hn
  found := fun session p hq => (h.found session p hq).persists hp

theorem Inv.setPending {st : SessionState} (h : Inv st) (session : Nat) {q : Option PendingCall}
    (hq : ∀ p ∈ q, Found st.store.nodes p) : Inv (st.setPending session q) where
  nodePages := h.nodePages
  found := by
    intro session' p hp
    simp only [SessionState.setPending] at hp
    split at hp
    · exact hq p hp
    · exact h.found session' p hp

/-- The find step changes no store, and what it finds is there. -/
theorem Inv.find {st : SessionState} (h : Inv st) (session : Nat) (xid : Xid) (cache : LocationCache) (nodeId : Int64)
    {update : Option (List Int32 × Bytes)}
    (hu : ∀ u ∈ update, u.1.length ≤ maxLabelsPerNode ∧ u.2.length ≤ propInlineMax) :
    Inv (st.find session xid cache nodeId update) ∧ (st.find session xid cache nodeId update).store = st.store := by
  simp only [SessionState.find]
  split
  · next blk off slot hf =>
    obtain ⟨v, hv, -, hid, -⟩ := located_of_findNodeLocation h.nodePages hf
    refine ⟨h.setPending session fun p hp => ?_, rfl⟩
    cases hp
    exact ⟨⟨v, hv, hid⟩, hu⟩
  · exact ⟨h, rfl⟩

/-- An insert with a fresh id keeps the pages, the versions and their uniqueness. -/
theorem insert_keeps (pg : PgSys) (xid : Xid) {s : Store} (nodeId : Int64) (labelIds : List Int32) (propBytes : Bytes)
    (hn : NodePages s.nodes) :
    NodePages (insertNode pg xid s nodeId labelIds propBytes).1.nodes ∧
      Persists s.nodes (insertNode pg xid s nodeId labelIds propBytes).1.nodes ∧
      ((∀ lv ∈ versions s.nodes, lv.2.nodeId ≠ nodeId) → UniqueUnmarked s.nodes →
        UniqueUnmarked (insertNode pg xid s nodeId labelIds propBytes).1.nodes) := by
  have hr := insertNode_result pg xid nodeId labelIds propBytes hn
  generalize insertNode pg xid s nodeId labelIds propBytes = out at hr ⊢
  cases hr with
  | failed hg _ => exact ⟨hg.nodePages hn, Persists.grows hg, fun _ hu => hu.grows hg⟩
  | inserted _ _ hg hp hnp _ hst =>
    have hg' := hg.trans hst.grows
    have hp' := hst.grows.getElem? hp
    refine ⟨(hg'.nodePages hn).pushAt hp' hnp, (Persists.grows hg').trans (Persists.pushAt hp' (length_newVersion ..)),
      fun hf hu => (hu.grows hg').pushAt hp' (length_newVersion ..) fun loc w hw _ => ?_⟩
    rw [nodeId_newVersion]
    exact hf (loc, w) ((mem_versions hn).mpr (hg'.versionAt loc ▸ hw))

/-- What the write step of an update does to the node relation: mark the version met, and, when there is room, write the next
version behind the items of some page. -/
theorem write_update (pg : PgSys) {s : Store} {p : PendingCall} {labelIds : List Int32} {propBytes : Bytes} {v : NodeVersion}
    (hn : NodePages s.nodes) (hu : p.update = some (labelIds, propBytes))
    (hlim : labelIds.length ≤ maxLabelsPerNode ∧ propBytes.length ≤ propInlineMax)
    (hv : versionAt s.nodes (p.blkno, p.off) = some v) :
    (roomForUpdate s p labelIds propBytes = false ∧
        (SessionState.writeCall pg s p).nodes = setXmaxAt s.nodes p.blkno p.off p.xid) ∨
      ∃ rel blk page off, roomForUpdate s p labelIds propBytes = true ∧ Grows (setXmaxAt s.nodes p.blkno p.off p.xid) rel ∧
        rel[blk]? = some page ∧ page.IsNodePage ∧
        (SessionState.writeCall pg s p).nodes =
          pushAt rel blk (newVersion p.xid p.nodeId p.adjSlotIdx labelIds propBytes 0 blk off) := by
  obtain ⟨page, hp, hpv⟩ := versionAt_eq_some.mp hv
  dsimp only at hp
  have hr := updateNodeAt_result pg p.xid p.nodeId p.adjSlotIdx hn hlim.1 hlim.2 hp hpv
  simp only [SessionState.writeCall, hu, roomForUpdate, buildNodeItemBytes, len_buildNodeItem, hp, Option.any_some]
  generalize updateNodeAt pg p.xid s p.nodeId labelIds propBytes p.blkno p.off p.adjSlotIdx = out at hr ⊢
  cases hr with
  | stayed hf =>
    have hp' : (setXmaxAt s.nodes p.blkno p.off p.xid)[p.blkno]? =
        some (page.modifyItem p.off (Item.mapHdr (·.setXmax p.xid))) := by
      rw [getElem?_setXmaxAt, if_pos rfl, hp, Option.map_some]
    exact Or.inr ⟨_, p.blkno, _, page.maxOffset + 1, by rw [hf, Bool.true_or], Grows.refl _, hp',
      (hn.isNodePage_of_versionAt hp hpv).modifyItem _ _, rfl⟩
  | moved hf he hg hp' hnp =>
    exact Or.inr ⟨_, _, _, _, by rw [hf, he]; rfl, hg, hp', hnp, rfl⟩
  | failed hf he _ => exact Or.inl ⟨by rw [hf, he]; rfl, rfl⟩

/-- The write step keeps the pages and the versions. -/
theorem write_keeps (pg : PgSys) {s : Store} {p : PendingCall} (hn : NodePages s.nodes) (hf : Found s.nodes p) :
    NodePages (SessionState.writeCall pg s p).nodes ∧ Persists s.nodes (SessionState.writeCall pg s p).nodes := by
  obtain ⟨v, hv, -⟩ := hf.version
  have hmark : NodePages (setXmaxAt s.nodes p.blkno p.off p.xid) := hn.setXmaxAt hv
  have hpers := Persists.setXmaxAt p.xid hv
  cases hu : p.update with
  | none =>
    simp only [SessionState.writeCall, hu]
    exact ⟨hmark, hpers⟩
  | some u =>
    rcases write_update pg hn hu (hf.limits u hu) hv with ⟨-, hw⟩ | ⟨rel, blk, page, off, -, hg, hp, hnp, hw⟩
    · rw [hw]
      exact ⟨hmark, hpers⟩
    · rw [hw]
      exact ⟨(hg.nodePages hmark).pushAt hp hnp,
        (hpers.trans (Persists.grows hg)).trans (Persists.pushAt hp (length_newVersion ..))⟩

/-- Every step keeps the invariant. -/
theorem Inv.step {pg : PgSys} {st st' : SessionState} {op : SessionOp} (h : Inv st) (ht : st.step pg op = some st') :
    Inv st' := by
  cases op with
  | insertNode xid nodeId labelIds propBytes =>
    cases ht
    obtain ⟨h1, h2, -⟩ := insert_keeps pg xid nodeId labelIds propBytes h.nodePages
    exact h.store h1 h2
  | findForUpdate session xid cache nodeId labelIds propBytes =>
    simp only [SessionState.step] at ht
    split at ht
    · cases ht
    · split at ht
      · cases ht; exact h
      · next hlim =>
        cases ht
        refine (h.find session xid cache nodeId fun u hu => ?_).1
        cases hu
        rw [not_or, Nat.not_lt, Nat.not_lt] at hlim
        exact hlim
  | findForDelete session xid cache nodeId =>
    simp only [SessionState.step] at ht
    split at ht
    · cases ht
    · cases ht
      exact (h.find session xid cache nodeId fun u hu => by cases hu).1
  | write session =>
    simp only [SessionState.step] at ht
    split at ht
    · cases ht
    · next p hp =>
      cases ht
      obtain ⟨h1, h2⟩ := write_keeps pg h.nodePages (h.found session p hp)
      exact (h.store h1 h2).setPending session fun q hq => by cases hq

/-- One step keeps at most one unmarked version per node exactly if a write comes in time. -/
theorem step_iff {pg : PgSys} {st st' : SessionState} {op : SessionOp} (h : Inv st) (hu : AtMostOneUnmarked st)
    (hf : op.Fresh st) (ht : st.step pg op = some st') : AtMostOneUnmarked st' ↔ op.WritesInTime st := by
  rw [atMostOneUnmarked_iff (h.step ht).nodePages]
  rw [atMostOneUnmarked_iff h.nodePages] at hu
  cases op with
  | insertNode xid nodeId labelIds propBytes =>
    cases ht
    exact iff_of_true ((insert_keeps pg xid nodeId labelIds propBytes h.nodePages).2.2 hf hu) trivial
  | findForUpdate session xid cache nodeId labelIds propBytes =>
    refine iff_of_true ?_ trivial
    simp only [SessionState.step] at ht
    split at ht
    · cases ht
    · split at ht
      · cases ht; exact hu
      · next hlim =>
        cases ht
        rw [not_or, Nat.not_lt, Nat.not_lt] at hlim
        rw [(h.find session xid cache nodeId fun u hu => by cases hu; exact hlim).2]
        exact hu
  | findForDelete session xid cache nodeId =>
    refine iff_of_true ?_ trivial
    simp only [SessionState.step] at ht
    split at ht
    · cases ht
    · cases ht
      rw [(h.find session xid cache nodeId fun u hu => by cases hu).2]
      exact hu
  | write session =>
    simp only [SessionState.step] at ht
    split at ht
    · cases ht
    · next p hp =>
      cases ht
      simp only [SessionState.setPending, SessionOp.WritesInTime, hp, Option.mem_def, Option.some.injEq, forall_eq']
      obtain ⟨v, hv, hid⟩ := (h.found session p hp).version
      have hmark := hu.setXmaxAt p.xid hv
      cases hup : p.update with
      | none =>
        refine iff_of_true ?_ (by simp)
        simp only [SessionState.writeCall, hup]
        exact hmark
      | some u =>
        simp only [Option.some.injEq, forall_eq']
        rcases write_update pg h.nodePages hup ((h.found session p hp).limits u hup) hv with
          ⟨hroom, hw⟩ | ⟨rel, blk, page, off, hroom, hg, hpage, -, hw⟩
        · rw [hw, hroom]
          exact iff_of_true hmark (by simp)
        · have hvers : ∀ loc, versionAt rel loc = versionAt (setXmaxAt st.store.nodes p.blkno p.off p.xid) loc := hg.versionAt
          rw [hw, uniqueUnmarked_pushAt_iff (hmark.grows hg) hpage (length_newVersion ..) rfl, nodeId_newVersion, ← hid]
          simp only [hvers, none_left_iff hu p.xid hv, hroom, hv, Option.any_some, forall_const]
          refine or_congr_right ⟨fun hn lv hlv hlu => hn lv.1 lv.2 ((mem_versions h.nodePages).mp hlv) hlu,
            fun hn loc w hw' hwu => hn (loc, w) ((mem_versions h.nodePages).mpr hw') hwu⟩

end RacesAux

/-- In every interleaving of inserts, updates and deletes of any number of sessions, each update and delete in its two steps,
there is at most one unmarked version per node in every state exactly if every update writes in time. -/
theorem at_most_one_unmarked_iff (pg : PgSys) (ops : List SessionOp)
    (hfresh : EveryCall (SessionState.step pg) SessionOp.Fresh SessionState.empty ops) :
    EveryState (SessionState.step pg) AtMostOneUnmarked SessionState.empty ops ↔
      EveryCall (SessionState.step pg) SessionOp.WritesInTime SessionState.empty ops :=
  everyState_iff_everyCall (I := RacesAux.Inv) (P := AtMostOneUnmarked) (C := SessionOp.WritesInTime)
    (D := SessionOp.Fresh) (fun _ _ _ h _ ht => h.step ht) (fun _ _ _ h hu hf ht => RacesAux.step_iff h hu hf ht)
    RacesAux.Inv.empty (by decide) hfresh

/-- One session updates node 1 while another deletes it. -/
def updateAndDelete : List SessionOp :=
  [.insertNode 3 1 [] [], .findForUpdate 0 4 .empty 1 [7] [], .findForDelete 1 5 .empty 1, .write 1, .write 0]

theorem at_most_one_unmarked_update_and_delete :
    EveryState (SessionState.step postgres) AtMostOneUnmarked SessionState.empty updateAndDelete ↔
      EveryCall (SessionState.step postgres) SessionOp.WritesInTime SessionState.empty updateAndDelete :=
  at_most_one_unmarked_iff postgres updateAndDelete (by decide +kernel)

/-- Two sessions update node 1: both find the same version before either of them writes. -/
def twoUpdates : List SessionOp :=
  [.insertNode 3 1 [] [], .findForUpdate 0 4 .empty 1 [7] [], .findForUpdate 1 5 .empty 1 [8] [], .write 0, .write 1]

/-- Then node 1 has two versions without a deleter. -/
theorem two_updates_leave_two_versions :
    EveryCall (SessionState.step postgres) SessionOp.Fresh SessionState.empty twoUpdates ∧
      ¬EveryState (SessionState.step postgres) AtMostOneUnmarked SessionState.empty twoUpdates :=
  ⟨by decide +kernel, not_everyState_of_run (by decide +kernel)⟩

end PgEddy
