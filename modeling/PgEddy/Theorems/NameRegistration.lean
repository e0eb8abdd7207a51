import PgEddy.Lib.Dealt
import PgEddy.NameIds

/-!
# Names in use are registered

An id that a call gets for a name is that of a row of the registry, which the transaction of the call sees, unless the session has
it in its cache from a transaction that has been rolled back.
-/

namespace PgEddy

open Machine

/-- The transaction sees the name in its registry under the id. -/
def NameState.Registered (st : NameState) (xid : Xid) (u : NameId) : Prop :=
  ∃ row ∈ (st.registry u.kind).rows, row.id = u.id ∧ row.name = u.name ∧ st.sees xid row.xmin

/-- The ids that calls have looked up are registered, and so are those in the versions that are not rolled back, as the
transaction that wrote the version sees it. When this transaction has committed, the rows are committed. -/
structure NameState.NamesRegistered (st : NameState) : Prop where
  lookedUp : ∀ (i : Nat) (s : NameSession) (xid : Xid), st.sessions[i]? = some s → s.xid = some xid →
    ∀ u ∈ s.lookedUp, st.Registered xid u
  written : ∀ r ∈ st.records, st.xact.status r.xid ≠ .aborted → ∀ u ∈ r.names, st.Registered r.xid u

/-- The session has the id of the name in its cache, and the transaction that registered the name has been rolled back. -/
def NameState.RolledBack (st : NameState) (i : Nat) (kind : NameKind) (name : String) : Prop :=
  ∃ s, st.sessions[i]? = some s ∧ ∃ row ∈ (st.registry kind).rows,
    row.name = name ∧ s.cache kind name = some row.id ∧ st.xact.status row.xmin = .aborted

/-- A call looks up no name of which the session's cache has the id of a registration that was rolled back. -/
def NameEvent.Current (st : NameState) : NameEvent → Prop
  | .ensureLabel i name => ¬st.RolledBack i .label name
  | .ensurePropKey i name => ¬st.RolledBack i .propKey name
  | _ => True

namespace NameAux

/-! ## What every state has -/

/-- The transactions of the sessions run and are different, what is written is written by transactions that have begun, the ids of
a registry are different, and what a session has cached was registered by its own transaction or by one that has ended. -/
structure Inv (st : NameState) : Prop where
  running : ∀ (i : Nat) (s : NameSession) (xid : Xid), st.sessions[i]? = some s → s.xid = some xid →
    xid < st.xact.nextXid ∧ st.xact.status xid = .inProgress
  own : ∀ (i j : Nat) (s s' : NameSession) (xid : Xid), st.sessions[i]? = some s → st.sessions[j]? = some s' →
    s.xid = some xid → s'.xid = some xid → i = j
  idle : ∀ (i : Nat) (s : NameSession), st.sessions[i]? = some s → s.xid = none → s.lookedUp = []
  rows : ∀ kind, ∀ row ∈ (st.registry kind).rows, row.xmin < st.xact.nextXid
  ids : ∀ kind, Dealt (st.registry kind).lastId ((st.registry kind).rows.map RegistryRow.id)
  records : ∀ r ∈ st.records, r.xid < st.xact.nextXid
  cached : ∀ (i : Nat) (s : NameSession) (kind : NameKind) (name : String) (id : Nat), st.sessions[i]? = some s →
    s.cache kind name = some id → ∃ row ∈ (st.registry kind).rows, row.id = id ∧ row.name = name ∧
      (st.xact.status row.xmin ≠ .inProgress ∨ s.xid = some row.xmin)

theorem inv_start (sessions : Nat) : Inv (.start sessions) := by
  have hnew : ∀ (i : Nat) (s : NameSession), (NameState.start sessions).sessions[i]? = some s → s = .new :=
    fun i s hs => List.eq_of_mem_replicate (List.mem_of_getElem? hs)
  constructor
  · rintro i s xid hs hx
    rw [hnew i s hs] at hx
    cases hx
  · rintro i j s s' xid hs - hx
    rw [hnew i s hs] at hx
    cases hx
  · rintro i s hs -
    rw [hnew i s hs]
    rfl
  · exact fun _ => List.forall_mem_nil _
  · exact fun _ => Dealt.nil _
  · exact List.forall_mem_nil _
  · rintro i s kind name id hs hc
    rw [hnew i s hs] at hc
    cases hc

/-! ## One registry -/

section Upsert

variable {r r' : Registry} {x : XactState} {xid : Xid} {name : String} {id : Nat}

/-- The name is there and its row is seen, or a row is added. -/
theorem upsert_cases (h : r.upsert x xid name = some (r', id)) :
    r'.lastId = r.lastId + 1 ∧
      ((r'.rows = r.rows ∧ ∃ row ∈ r.rows, row.id = id ∧ row.name = name ∧ (row.xmin = xid ∨ x.status row.xmin = .committed)) ∨
        (r'.rows = r.rows ++ [⟨id, name, xid⟩] ∧ id = r.lastId + 1)) := by
  unfold Registry.upsert at h
  split at h
  · split at h
    · next row hfind =>
      split at h
      · next hseen =>
        cases h
        have hmem := List.mem_of_find?_eq_some hfind
        have hlive := List.find?_some hfind
        simp only [Bool.and_eq_true, beq_iff_eq] at hlive
        exact ⟨rfl, Or.inl ⟨rfl, row, hmem, rfl, hlive.1, hseen⟩⟩
      · cases h
    · cases h
      exact ⟨rfl, Or.inr ⟨rfl, rfl⟩⟩
  · cases h

end Upsert

/-! ## One lookup -/

variable {st st' : NameState} {i : Nat} {kind : NameKind} {name : String}

/-- The registry of a kind, replaced. -/
theorem registry_setRegistry (st : NameState) (kind k : NameKind) (r : Registry) :
    (st.setRegistry kind r).registry k = if k = kind then r else st.registry k := rfl

/-- A lookup: the id is cached, or it is of the registry and is cached now. -/
theorem ensureName_cases (h : st.ensureName kind i name = some st') :
    ∃ s xid id, st.sessions[i]? = some s ∧ s.xid = some xid ∧
      ((s.cache kind name = some id ∧ st' = st.setSession i (s.use kind name id)) ∨
        ∃ r, s.cache kind name = none ∧ (st.registry kind).upsert st.xact xid name = some (r, id) ∧
          st' = (st.setRegistry kind r).setSession i ((s.cacheId kind name id).use kind name id)) := by
  obtain ⟨s, hs, h⟩ := Option.bind_eq_some_iff.mp h
  obtain ⟨xid, hx, h⟩ := Option.bind_eq_some_iff.mp h
  split at h
  · next id hc =>
    cases h
    exact ⟨s, xid, id, hs, hx, Or.inl ⟨hc, rfl⟩⟩
  · next hc =>
    obtain ⟨⟨r, id⟩, hr, h⟩ := Option.bind_eq_some_iff.mp h
    cases h
    exact ⟨s, xid, id, hs, hx, Or.inr ⟨r, hc, hr, rfl⟩⟩

/-! ## Every step keeps it -/

/-- A session of a list in which one has been replaced. -/
theorem getElem?_set_cases {sessions : List NameSession} {s : NameSession} {j : Nat} {s' : NameSession}
    (h : (sessions.set i s)[j]? = some s') : (j = i ∧ s' = s) ∨ (j ≠ i ∧ sessions[j]? = some s') := by
  by_cases hj : j = i
  · subst hj
    rw [List.getElem?_set_self'] at h
    obtain ⟨-, -, rfl⟩ := Option.map_eq_some_iff.mp h
    exact Or.inl ⟨rfl, rfl⟩
  · exact Or.inr ⟨hj, by rwa [List.getElem?_set_ne (Ne.symm hj)] at h⟩

/-- A session changes, but not its transaction, and the registries gain rows. -/
theorem Inv.setSession (hi : Inv st) {s s' : NameSession} (hs : st.sessions[i]? = some s) (hx : s'.xid = s.xid)
    (hidle : s'.xid = none → s'.lookedUp = []) {registry : NameKind → Registry} {records : List NamedRecord}
    (hsub : ∀ kind, (st.registry kind).rows ⊆ (registry kind).rows)
    (hrows : ∀ kind, ∀ row ∈ (registry kind).rows, row.xmin < st.xact.nextXid)
    (hids : ∀ kind, Dealt (registry kind).lastId ((registry kind).rows.map RegistryRow.id))
    (hrecords : ∀ r ∈ records, r.xid < st.xact.nextXid)
    (hcached : ∀ kind name id, s'.cache kind name = some id → s.cache kind name = some id ∨
      ∃ row ∈ (registry kind).rows, row.id = id ∧ row.name = name ∧
        (st.xact.status row.xmin ≠ .inProgress ∨ s.xid = some row.xmin)) :
    Inv ⟨st.xact, registry, st.sessions.set i s', records⟩ := by
  -- a session of the new state is one of the old state with the same transaction
  have hold : ∀ (j : Nat) (t : NameSession), (st.sessions.set i s')[j]? = some t →
      ∃ t', st.sessions[j]? = some t' ∧ t'.xid = t.xid := by
    intro j t ht
    rcases getElem?_set_cases ht with ⟨rfl, rfl⟩ | ⟨-, ht⟩
    · exact ⟨s, hs, hx.symm⟩
    · exact ⟨t, ht, rfl⟩
  refine ⟨fun j t xid ht hxid => ?_, fun j k t t' xid ht ht' hxid hxid' => ?_, fun j t ht hnone => ?_, hrows, hids, hrecords,
    fun j t kind name id ht hc => ?_⟩
  · obtain ⟨u, hu, hux⟩ := hold j t ht
    exact hi.running j u xid hu (hux.trans hxid)
  · obtain ⟨u, hu, hux⟩ := hold j t ht
    obtain ⟨u', hu', hux'⟩ := hold k t' ht'
    exact hi.own j k u u' xid hu hu' (hux.trans hxid) (hux'.trans hxid')
  · rcases getElem?_set_cases ht with ⟨rfl, rfl⟩ | ⟨-, ht⟩
    · exact hidle hnone
    · exact hi.idle j t ht hnone
  · have hkeep : ∀ (k : Nat) (u : NameSession), st.sessions[k]? = some u → u.xid = t.xid → u.cache kind name = some id →
        ∃ row ∈ (registry kind).rows, row.id = id ∧ row.name = name ∧
          (st.xact.status row.xmin ≠ .inProgress ∨ t.xid = some row.xmin) := by
      intro k u hu hux huc
      obtain ⟨row, hrow, hid, hname, hended⟩ := hi.cached k u kind name id hu huc
      exact ⟨row, hsub kind hrow, hid, hname, hux ▸ hended⟩
    rcases getElem?_set_cases ht with ⟨rfl, rfl⟩ | ⟨-, ht⟩
    · rcases hcached kind name id hc with hc | hnew
      · exact hkeep j s hs hx.symm hc
      · exact hx ▸ hnew
    · exact hkeep j t ht rfl hc

/-- A registry after a lookup: its rows and ids. -/
theorem Inv.upsert (hi : Inv st) {xid : Xid} (hx : xid < st.xact.nextXid) {r : Registry} {id : Nat}
    (h : (st.registry kind).upsert st.xact xid name = some (r, id)) :
    (st.registry kind).rows ⊆ r.rows ∧ (∀ row ∈ r.rows, row.xmin < st.xact.nextXid) ∧
      Dealt r.lastId (r.rows.map RegistryRow.id) := by
  obtain ⟨hlast, ⟨hrows, -⟩ | ⟨hrows, rfl⟩⟩ := upsert_cases h
  · rw [hlast, hrows]
    exact ⟨List.Subset.refl _, hi.rows kind,
      ⟨(hi.ids kind).nodup, fun id hid => Nat.le_succ_of_le ((hi.ids kind).le_last id hid)⟩⟩
  · rw [hlast, hrows]
    refine ⟨List.subset_append_left _ _, fun row hrow => ?_, ?_⟩
    · rcases List.mem_append.mp hrow with hrow | hrow
      · exact hi.rows kind row hrow
      · rw [List.mem_singleton.mp hrow]
        exact hx
    · rw [List.map_append]
      exact (hi.ids kind).next.subperm (List.perm_append_singleton _ _).subperm

theorem Inv.ensureName (hi : Inv st) (h : st.ensureName kind i name = some st') : Inv st' := by
  obtain ⟨s, xid, id, hs, hx, ⟨hc, rfl⟩ | ⟨r, hc, hr, rfl⟩⟩ := ensureName_cases h
  · refine @Inv.setSession st i hi s (s.use kind name id) hs rfl (fun hnone => ?_) _ _ (fun _ => List.Subset.refl _) hi.rows
      hi.ids hi.records fun _ _ _ hc => Or.inl hc
    cases hx.symm.trans hnone
  · obtain ⟨hsub, hrows, hids⟩ := hi.upsert (hi.running i s xid hs hx).1 hr
    refine @Inv.setSession st i hi s ((s.cacheId kind name id).use kind name id) hs rfl (fun hnone => ?_)
      (st.setRegistry kind r).registry _ (fun k => ?_) (fun k => ?_) (fun k => ?_) hi.records fun k n id' hc' => ?_
    · cases hx.symm.trans hnone
    · rw [registry_setRegistry]
      split
      · next hk => exact hk ▸ hsub
      · exact List.Subset.refl _
    · rw [registry_setRegistry]
      split
      · exact hrows
      · exact hi.rows k
    · rw [registry_setRegistry]
      split
      · exact hids
      · exact hi.ids k
    · simp only [NameSession.use, NameSession.cacheId] at hc'
      split at hc'
      · next hkn =>
        obtain ⟨rfl, rfl⟩ := hkn
        cases hc'
        rw [registry_setRegistry, if_pos rfl]
        obtain ⟨-, ⟨hrows', row, hrow, hid, hname, hseen⟩ | ⟨hrows', -⟩⟩ := upsert_cases hr
        · refine Or.inr ⟨row, hrows' ▸ hrow, hid, hname, ?_⟩
          rcases hseen with rfl | hcommitted
          · exact Or.inr hx
          · exact Or.inl (by rw [hcommitted]; nofun)
        · exact Or.inr ⟨⟨id, _, xid⟩, by rw [hrows']; exact List.mem_append_right _ List.mem_cons_self, rfl, rfl, Or.inr hx⟩
      · exact Or.inl hc'

/-- A session's transaction ends. -/
theorem Inv.finish (hi : Inv st) {s : NameSession} {xid : Xid} (hs : st.sessions[i]? = some s) (hx : s.xid = some xid)
    {status : XactStatus} (hstatus : status ≠ .inProgress) :
    Inv ({ st with xact := st.xact.finish xid status }.setSession i { s with xid := none, lookedUp := [] }) := by
  -- the other sessions have other transactions, which go on
  have hother : ∀ (j : Nat) (t : NameSession) (xid' : Xid), j ≠ i → st.sessions[j]? = some t → t.xid = some xid' →
      xid' ≠ xid := by
    rintro j t xid' hj ht hx' rfl
    exact hj (hi.own j i t s xid' ht hs hx' hx)
  have hfinish : ∀ x, (st.xact.finish xid status).status x = if x = xid then status else st.xact.status x := fun _ => rfl
  refine ⟨fun j t xid' ht hx' => ?_, fun j k t t' xid' ht ht' hx' hx'' => ?_, fun j t ht hnone => ?_, hi.rows, hi.ids, hi.records,
    fun j t kind name id ht hc => ?_⟩
  · rcases getElem?_set_cases ht with ⟨rfl, rfl⟩ | ⟨hj, ht⟩
    · cases hx'
    · have hrunning := hi.running j t xid' ht hx'
      exact ⟨hrunning.1, by rw [NameState.setSession, hfinish, if_neg (hother j t xid' hj ht hx')]; exact hrunning.2⟩
  · rcases getElem?_set_cases ht with ⟨rfl, rfl⟩ | ⟨-, ht⟩
    · cases hx'
    · rcases getElem?_set_cases ht' with ⟨rfl, rfl⟩ | ⟨-, ht'⟩
      · cases hx''
      · exact hi.own j k t t' xid' ht ht' hx' hx''
  · rcases getElem?_set_cases ht with ⟨rfl, rfl⟩ | ⟨-, ht⟩
    · rfl
    · exact hi.idle j t ht hnone
  · have hended : ∀ x, st.xact.status x ≠ .inProgress → (st.xact.finish xid status).status x ≠ .inProgress := by
      intro x hne
      rw [hfinish]
      split
      · exact hstatus
      · exact hne
    rcases getElem?_set_cases ht with ⟨rfl, rfl⟩ | ⟨hj, ht⟩
    · obtain ⟨row, hrow, hid, hname, hended' | hown⟩ := hi.cached j s kind name id hs hc
      · exact ⟨row, hrow, hid, hname, Or.inl (hended _ hended')⟩
      · refine ⟨row, hrow, hid, hname, Or.inl ?_⟩
        rw [NameState.setSession, hfinish, if_pos (Option.some.inj (hown.symm.trans hx))]
        exact hstatus
    · obtain ⟨row, hrow, hid, hname, hended' | hown⟩ := hi.cached j t kind name id ht hc
      · exact ⟨row, hrow, hid, hname, Or.inl (hended _ hended')⟩
      · exact ⟨row, hrow, hid, hname, Or.inr hown⟩

/-- A session begins a transaction. -/
theorem Inv.begin (hi : Inv st) {s : NameSession} (hs : st.sessions[i]? = some s) (hx : s.xid = none) :
    Inv ({ st with xact := st.xact.begin }.setSession i { s with xid := some st.xact.nextXid }) := by
  have hbegin : ∀ x, x < st.xact.nextXid → st.xact.begin.status x = st.xact.status x := fun x hlt =>
    if_neg (Nat.ne_of_lt hlt)
  refine ⟨fun j t xid' ht hx' => ?_, fun j k t t' xid' ht ht' hx' hx'' => ?_, fun j t ht hnone => ?_,
    fun k row hrow => Nat.lt_succ_of_lt (hi.rows k row hrow), hi.ids, fun r hr => Nat.lt_succ_of_lt (hi.records r hr),
    fun j t kind name id ht hc => ?_⟩
  · rcases getElem?_set_cases ht with ⟨rfl, rfl⟩ | ⟨hj, ht⟩
    · cases hx'
      exact ⟨Nat.lt_succ_self _, if_pos rfl⟩
    · have hrunning := hi.running j t xid' ht hx'
      exact ⟨Nat.lt_succ_of_lt hrunning.1, (hbegin _ hrunning.1).trans hrunning.2⟩
  · rcases getElem?_set_cases ht with ⟨rfl, rfl⟩ | ⟨hj, htj⟩ <;> rcases getElem?_set_cases ht' with ⟨rfl, rfl⟩ | ⟨hk, htk⟩
    · rfl
    · cases hx'
      exact absurd (hi.running k t' _ htk hx'').1 (Nat.lt_irrefl _)
    · cases hx''
      exact absurd (hi.running j t _ htj hx').1 (Nat.lt_irrefl _)
    · exact hi.own j k t t' xid' htj htk hx' hx''
  · rcases getElem?_set_cases ht with ⟨rfl, rfl⟩ | ⟨-, ht⟩
    · cases hnone
    · exact hi.idle j t ht hnone
  · have hkeep : ∀ (k : Nat) (u : NameSession), st.sessions[k]? = some u → u.cache kind name = some id →
        ∃ row ∈ (st.registry kind).rows, row.id = id ∧ row.name = name ∧
          (st.xact.begin.status row.xmin ≠ .inProgress ∨ u.xid = some row.xmin) := by
      intro k u hu huc
      obtain ⟨row, hrow, hid, hname, hended⟩ := hi.cached k u kind name id hu huc
      exact ⟨row, hrow, hid, hname, hended.imp_left fun hne => by rwa [hbegin _ (hi.rows kind row hrow)]⟩
    rcases getElem?_set_cases ht with ⟨rfl, rfl⟩ | ⟨hj, ht⟩
    · obtain ⟨row, hrow, hid, hname, hended | hown⟩ := hkeep j s hs hc
      · exact ⟨row, hrow, hid, hname, Or.inl hended⟩
      · cases hx.symm.trans hown
    · exact hkeep j t ht hc

/-- Every event keeps it. -/
theorem Inv.step {e : NameEvent} (hi : Inv st) (ht : st.step e = some st') : Inv st' := by
  cases e with
  | begin i =>
    obtain ⟨s, hs, ht⟩ := Option.bind_eq_some_iff.mp ht
    split at ht
    · next hx =>
      cases ht
      exact hi.begin hs hx
    · cases ht
  | commit i =>
    obtain ⟨s, hs, ht⟩ := Option.bind_eq_some_iff.mp ht
    obtain ⟨xid, hx, ht⟩ := Option.bind_eq_some_iff.mp ht
    cases ht
    exact hi.finish hs hx (by nofun)
  | abort i =>
    obtain ⟨s, hs, ht⟩ := Option.bind_eq_some_iff.mp ht
    obtain ⟨xid, hx, ht⟩ := Option.bind_eq_some_iff.mp ht
    cases ht
    exact hi.finish hs hx (by nofun)
  | cypher i =>
    obtain ⟨s, hs, ht⟩ := Option.bind_eq_some_iff.mp ht
    cases ht
    exact @Inv.setSession st i hi s { s with cache := fun _ _ => none } hs rfl (hi.idle i s hs) _ _
      (fun _ => List.Subset.refl _) hi.rows hi.ids hi.records nofun
  | ensureLabel i name => exact hi.ensureName ht
  | ensurePropKey i name => exact hi.ensureName ht
  | write i kept =>
    obtain ⟨s, hs, ht⟩ := Option.bind_eq_some_iff.mp ht
    obtain ⟨xid, hx, ht⟩ := Option.bind_eq_some_iff.mp ht
    split at ht
    · cases ht
      refine @Inv.setSession st i hi s { s with lookedUp := [] } hs rfl (fun _ => rfl) _ _ (fun _ => List.Subset.refl _) hi.rows
        hi.ids (List.forall_mem_cons.mpr ⟨(hi.running i s xid hs hx).1, hi.records⟩) fun _ _ _ hc => Or.inl hc
    · cases ht
  | giveUp i =>
    obtain ⟨s, hs, ht⟩ := Option.bind_eq_some_iff.mp ht
    cases ht
    exact @Inv.setSession st i hi s { s with lookedUp := [] } hs rfl (fun _ => rfl) _ _ (fun _ => List.Subset.refl _) hi.rows
      hi.ids hi.records fun _ _ _ hc => Or.inl hc

/-! ## What is registered -/

/-- A name stays registered while its registry loses no row and the transaction goes on seeing what it sees. -/
theorem registered_mono {xid xid' : Xid} {u : NameId} (h : st.Registered xid u)
    (hrows : (st.registry u.kind).rows ⊆ (st'.registry u.kind).rows)
    (hsees : ∀ row ∈ (st.registry u.kind).rows, st.sees xid row.xmin → st'.sees xid' row.xmin) : st'.Registered xid' u := by
  obtain ⟨row, hrow, hid, hname, hseen⟩ := h
  exact ⟨row, hrows hrow, hid, hname, hsees row hrow hseen⟩

/-- An id from the cache is that of a registered name unless its registration was rolled back. -/
theorem registered_cached_iff (hi : Inv st) {s : NameSession} {xid : Xid} {id : Nat} (hs : st.sessions[i]? = some s)
    (hx : s.xid = some xid) (hc : s.cache kind name = some id) :
    st.Registered xid ⟨kind, name, id⟩ ↔ ¬st.RolledBack i kind name := by
  obtain ⟨row, hrow, rfl, hname, hended⟩ := hi.cached i s kind name id hs hc
  -- no other row has the id
  have hrow_unique : ∀ row' ∈ (st.registry kind).rows, row'.id = row.id → row' = row :=
    fun row' hrow' hid => List.inj_on_of_nodup_map (hi.ids kind).nodup hrow' hrow hid
  have hrunning := (hi.running i s xid hs hx).2
  constructor
  · rintro ⟨row', hrow', hid, -, hseen⟩ ⟨s', hs', row'', hrow'', -, hc', haborted⟩
    cases hs.symm.trans hs'
    cases hrow_unique row' hrow' hid
    cases hrow_unique row'' hrow'' (Option.some.inj (hc'.symm.trans hc))
    rcases hseen with hown | hcommitted
    · rw [hown, hrunning] at haborted
      cases haborted
    · rw [hcommitted] at haborted
      cases haborted
  · intro hnot
    refine ⟨row, hrow, rfl, hname, ?_⟩
    rcases hended with hended | hown
    · cases hstatus : st.xact.status row.xmin with
      | inProgress => exact absurd hstatus hended
      | committed => exact Or.inr hstatus
      | aborted => exact absurd ⟨s, hs, row, hrow, hname, hc, hstatus⟩ hnot
    · exact Or.inl (Option.some.inj (hown.symm.trans hx))

/-- One session is replaced by one with the same transaction, whose names looked up are registered too, and the registries gain
rows. -/
theorem NamesRegistered.setSession (hp : st.NamesRegistered) {s s' : NameSession} (hx : s'.xid = s.xid)
    {registry : NameKind → Registry} {records : List NamedRecord} (hsub : ∀ kind, (st.registry kind).rows ⊆ (registry kind).rows)
    (hlooked : ∀ xid, s.xid = some xid → ∀ u ∈ s'.lookedUp,
      NameState.Registered ⟨st.xact, registry, st.sessions.set i s', records⟩ xid u)
    (hrecords : ∀ r ∈ records, r ∈ st.records ∨ ∀ u ∈ r.names, st.Registered r.xid u) :
    NameState.NamesRegistered ⟨st.xact, registry, st.sessions.set i s', records⟩ := by
  have hkeep : ∀ {xid : Xid} {u : NameId}, st.Registered xid u →
      NameState.Registered ⟨st.xact, registry, st.sessions.set i s', records⟩ xid u :=
    fun h => registered_mono h (hsub _) fun _ _ hseen => hseen
  refine ⟨fun j t xid ht hxid u hu => ?_, fun r hr hstatus u hu => ?_⟩
  · rcases getElem?_set_cases ht with ⟨rfl, rfl⟩ | ⟨-, htj⟩
    · exact hlooked xid (hx ▸ hxid) u hu
    · exact hkeep (hp.lookedUp j t xid htj hxid u hu)
  · rcases hrecords r hr with hold | hnew
    · exact hkeep (hp.written r hold hstatus u hu)
    · exact hkeep (hnew u hu)

/-- A lookup leaves the names registered exactly if it does not return an id that was rolled back. -/
theorem namesRegistered_ensureName_iff (hi : Inv st) (hp : st.NamesRegistered) (h : st.ensureName kind i name = some st') :
    st'.NamesRegistered ↔ ¬st.RolledBack i kind name := by
  obtain ⟨s, xid, id, hs, hx, ⟨hc, rfl⟩ | ⟨r, hc, hr, rfl⟩⟩ := ensureName_cases h
  · have hself : (st.setSession i (s.use kind name id)).sessions[i]? = some (s.use kind name id) :=
      List.getElem?_set_self (List.getElem?_eq_some_iff.mp hs).1
    rw [← registered_cached_iff hi hs hx hc]
    constructor
    · exact fun hp' => hp'.lookedUp i _ xid hself hx ⟨kind, name, id⟩ List.mem_cons_self
    · intro hreg
      refine @NamesRegistered.setSession st i hp s (s.use kind name id) rfl _ _ (fun _ => List.Subset.refl _)
        (fun xid' hx' u hu => ?_) fun r hr => Or.inl hr
      rcases List.mem_cons.mp hu with rfl | hu
      · cases hx.symm.trans hx'
        exact hreg
      · exact hp.lookedUp i s xid' hs hx' u hu
  · refine iff_of_true ?_ ?_
    · have hsub : ∀ k, (st.registry k).rows ⊆ ((st.setRegistry kind r).registry k).rows := by
        intro k
        rw [registry_setRegistry]
        split
        · next hk => exact hk ▸ (hi.upsert (hi.running i s xid hs hx).1 hr).1
        · exact List.Subset.refl _
      refine @NamesRegistered.setSession st i hp s ((s.cacheId kind name id).use kind name id) rfl
        (st.setRegistry kind r).registry _ hsub (fun xid' hx' u hu => ?_) fun r hr => Or.inl hr
      rcases List.mem_cons.mp hu with rfl | hu
      · cases hx.symm.trans hx'
        have hrow : ∃ row ∈ r.rows, row.id = id ∧ row.name = name ∧ st.sees xid row.xmin := by
          obtain ⟨-, ⟨hrows, hrow⟩ | ⟨hrows, -⟩⟩ := upsert_cases hr
          · exact hrows ▸ hrow
          · exact ⟨⟨id, name, xid⟩, by rw [hrows]; exact List.mem_append_right _ List.mem_cons_self, rfl, rfl, Or.inl rfl⟩
        obtain ⟨row, hmem, hid, hname, hseen⟩ := hrow
        have hregistry : (st.setRegistry kind r).registry kind = r := if_pos rfl
        refine ⟨row, ?_, hid, hname, hseen⟩
        show row ∈ ((st.setRegistry kind r).registry kind).rows
        rwa [hregistry]
      · exact registered_mono (hp.lookedUp i s xid' hs hx' u hu) (hsub _) fun _ _ hseen => hseen
    · rintro ⟨s', hs', row, -, -, hc', -⟩
      cases hs.symm.trans hs'
      cases hc.symm.trans hc'

/-- When a transaction ends, what other transactions see stays, and what it has written itself counts only if it commits. -/
theorem namesRegistered_finish (hi : Inv st) (hp : st.NamesRegistered) {s : NameSession} {xid : Xid}
    (hs : st.sessions[i]? = some s) (hx : s.xid = some xid) {status : XactStatus} :
    ({ st with xact := st.xact.finish xid status }.setSession i
      { s with xid := none, lookedUp := [] } : NameState).NamesRegistered := by
  have hfinish : ∀ x, (st.xact.finish xid status).status x = if x = xid then status else st.xact.status x := fun _ => rfl
  have hrunning := (hi.running i s xid hs hx).2
  have hsees : ∀ reader writer, st.sees reader writer →
      reader = writer ∨ (st.xact.finish xid status).status writer = .committed := by
    rintro reader writer (rfl | hcommitted)
    · exact Or.inl rfl
    · have hne : writer ≠ xid := by
        rintro rfl
        rw [hrunning] at hcommitted
        cases hcommitted
      exact Or.inr (by rw [hfinish, if_neg hne]; exact hcommitted)
  refine ⟨fun j t xid' ht hx' u hu => ?_, fun r hr hstatus u hu => ?_⟩
  · rcases getElem?_set_cases ht with ⟨rfl, rfl⟩ | ⟨-, htj⟩
    · cases hx'
    · refine registered_mono (hp.lookedUp j t xid' htj hx' u hu) (List.Subset.refl _) fun row _ hseen => ?_
      exact (hsees xid' row.xmin hseen).imp_left Eq.symm
  · have hold : st.xact.status r.xid ≠ .aborted := by
      intro haborted
      have hne : r.xid ≠ xid := by
        intro heq
        rw [heq, hrunning] at haborted
        cases haborted
      rw [NameState.setSession, hfinish, if_neg hne] at hstatus
      exact hstatus haborted
    refine registered_mono (hp.written r hr hold u hu) (List.Subset.refl _) fun row _ hseen => ?_
    exact (hsees r.xid row.xmin hseen).imp_left Eq.symm

/-- One event: afterwards the names are registered exactly if the event looks up no name whose cached id was rolled back. -/
theorem namesRegistered_step_iff {e : NameEvent} (hi : Inv st) (hp : st.NamesRegistered) (ht : st.step e = some st') :
    st'.NamesRegistered ↔ e.Current st := by
  cases e with
  | ensureLabel i name => exact namesRegistered_ensureName_iff hi hp ht
  | ensurePropKey i name => exact namesRegistered_ensureName_iff hi hp ht
  | begin i =>
    refine iff_of_true ?_ trivial
    obtain ⟨s, hs, ht⟩ := Option.bind_eq_some_iff.mp ht
    split at ht
    · next hx =>
      cases ht
      have hsees : ∀ kind, ∀ row ∈ (st.registry kind).rows, ∀ xid, st.sees xid row.xmin →
          NameState.sees ⟨st.xact.begin, st.registry, st.sessions, st.records⟩ xid row.xmin := by
        intro kind row hrow xid hseen
        refine hseen.imp_right fun hcommitted => ?_
        exact (if_neg (Nat.ne_of_lt (hi.rows kind row hrow))).trans hcommitted
      refine ⟨fun j t xid' ht hx' u hu => ?_, fun r hr hstatus u hu => ?_⟩
      · rcases getElem?_set_cases ht with ⟨rfl, rfl⟩ | ⟨-, htj⟩
        · rw [show ({ s with xid := some st.xact.nextXid } : NameSession).lookedUp = s.lookedUp from rfl,
            hi.idle j s hs hx] at hu
          cases hu
        · exact registered_mono (hp.lookedUp j t xid' htj hx' u hu) (List.Subset.refl _) fun row hrow => hsees _ row hrow _
      · have hbegin : st.xact.begin.status r.xid = st.xact.status r.xid := if_neg (Nat.ne_of_lt (hi.records r hr))
        have hold : st.xact.status r.xid ≠ .aborted := fun haborted => hstatus (hbegin.trans haborted)
        exact registered_mono (hp.written r hr hold u hu) (List.Subset.refl _) fun row hrow => hsees _ row hrow _
    · cases ht
  | commit i =>
    obtain ⟨s, hs, ht⟩ := Option.bind_eq_some_iff.mp ht
    obtain ⟨xid, hx, ht⟩ := Option.bind_eq_some_iff.mp ht
    cases ht
    exact iff_of_true (namesRegistered_finish hi hp hs hx) trivial
  | abort i =>
    obtain ⟨s, hs, ht⟩ := Option.bind_eq_some_iff.mp ht
    obtain ⟨xid, hx, ht⟩ := Option.bind_eq_some_iff.mp ht
    cases ht
    exact iff_of_true (namesRegistered_finish hi hp hs hx) trivial
  | cypher i =>
    obtain ⟨s, hs, ht⟩ := Option.bind_eq_some_iff.mp ht
    cases ht
    exact iff_of_true (@NamesRegistered.setSession st i hp s { s with cache := fun _ _ => none } rfl _ _
      (fun _ => List.Subset.refl _) (fun xid hx u hu => hp.lookedUp i s xid hs hx u hu) fun r hr => Or.inl hr) trivial
  | write i kept =>
    refine iff_of_true ?_ trivial
    obtain ⟨s, hs, ht⟩ := Option.bind_eq_some_iff.mp ht
    obtain ⟨xid, hx, ht⟩ := Option.bind_eq_some_iff.mp ht
    split at ht
    · next hkept =>
      cases ht
      refine @NamesRegistered.setSession st i hp s { s with lookedUp := [] } rfl _ _ (fun _ => List.Subset.refl _)
        (fun _ _ => List.forall_mem_nil _) fun r hr => ?_
      rcases List.mem_cons.mp hr with rfl | hr
      · refine Or.inr fun u hu => ?_
        rcases List.mem_append.mp hu with hu | hu
        · obtain ⟨r, hr, hseen, hur⟩ := hkept u hu
          -- a version that is seen is the transaction's own or is committed
          have hstatus : st.xact.status r.xid ≠ .aborted := by
            rcases hseen with hown | hcommitted
            · rw [hown, (hi.running i s xid hs hx).2]
              nofun
            · rw [hcommitted]
              nofun
          refine registered_mono (hp.written r hr hstatus u hur) (List.Subset.refl _) fun row _ hrow => ?_
          rcases hrow with hrow | hrow
          · exact hrow ▸ hseen
          · exact Or.inr hrow
        · exact hp.lookedUp i s xid hs hx u hu
      · exact Or.inl hr
    · cases ht
  | giveUp i =>
    obtain ⟨s, hs, ht⟩ := Option.bind_eq_some_iff.mp ht
    cases ht
    exact iff_of_true (@NamesRegistered.setSession st i hp s { s with lookedUp := [] } rfl _ _ (fun _ => List.Subset.refl _)
      (fun _ _ => List.forall_mem_nil _) fun r hr => Or.inl hr) trivial

theorem namesRegistered_start (sessions : Nat) : (NameState.start sessions).NamesRegistered where
  lookedUp i s xid hs hx := by
    rw [List.eq_of_mem_replicate (List.mem_of_getElem? hs)] at hx
    cases hx
  written := List.forall_mem_nil _

end NameAux

/-- For every history: in every state of it the names in use are registered, if and only if no call looks up a name of which the
session's cache has the id of a registration that was rolled back. -/
theorem names_registered_iff (sessions : Nat) (events : List NameEvent) :
    EveryState NameState.step NameState.NamesRegistered (.start sessions) events ↔
      EveryCall NameState.step NameEvent.Current (.start sessions) events :=
  everyState_iff_everyCall (I := NameAux.Inv) (D := fun _ _ => True) (fun _ _ _ hi _ ht => hi.step ht)
    (fun _ _ _ hi hp _ ht => NameAux.namesRegistered_step_iff hi hp ht) (NameAux.inv_start sessions)
    (NameAux.namesRegistered_start sessions) (EveryCall.of_forall fun _ _ => trivial)

/-- A session rolls back `create_node` with a new label and calls it again in its next transaction. -/
def rolledBackLabel : List NameEvent :=
  [.begin 0, .ensureLabel 0 "Person", .write 0 [], .abort 0, .begin 0, .ensureLabel 0 "Person", .write 0 [], .commit 0]

/-- The committed node has the label id 1, which no row of the registry has that is not rolled back. -/
theorem rolled_back_label_not_registered :
    ¬∀ (sessions : Nat) (events : List NameEvent),
      EveryState NameState.step NameState.NamesRegistered (.start sessions) events := by
  intro h
  have hbad : (run NameState.step (.start 1) rolledBackLabel).any (fun st => decide (∃ r ∈ st.records,
      st.xact.status r.xid = .committed ∧ ∃ u ∈ r.names, ¬∃ row ∈ (st.registry u.kind).rows,
        row.id = u.id ∧ row.name = u.name ∧ st.sees r.xid row.xmin)) = true := by decide +kernel
  obtain ⟨st, hrun, hst⟩ := (Option.any_eq_true _ _).mp hbad
  obtain ⟨r, hr, hcommitted, u, hu, hnot⟩ := of_decide_eq_true hst
  have hall := h 1 rolledBackLabel
  rw [← List.append_nil rolledBackLabel] at hall
  have hend : st.NamesRegistered := EveryState.of_run hall hrun
  exact hnot (hend.written r hr (by rw [hcommitted]; nofun) u hu)

end PgEddy
