import PgEddy.EdgeIds
import PgEddy.Lemmas.Changes
import PgEddy.Lib.Dealt
import PgEddy.Lib.Runs

/-!
# The ids of live edges are different

Ids in circulation are those of the live edges and those that sessions hold for edges to come. They are different as long as they
come from one count of the sequence. `clear` starts the count again and leaves the sessions what they hold.
-/

namespace PgEddy

open Machine

/-- The ids that a session holds for edges to come. -/
def EdgeSession.held (s : EdgeSession) : List Nat :=
  s.reservoir ++
    match s.creation with
    | .idle => []
    | .fetching batch => batch
    | .allocated edgeId => [edgeId]

/-- Every id in circulation. -/
def EdgeIdState.circulating (st : EdgeIdState) : List Nat := st.live ++ st.sessions.flatMap EdgeSession.held

/-- `clear` is called only when no session holds an id. -/
def EdgeIdEvent.ClearsNothingHeld (st : EdgeIdState) : EdgeIdEvent → Prop
  | .clear => ∀ s ∈ st.sessions, s.held = []
  | _ => True

instance (st : EdgeIdState) : DecidablePred (EdgeIdEvent.ClearsNothingHeld st)
  | .clear => inferInstanceAs (Decidable (∀ s ∈ st.sessions, s.held = []))
  | .createEdge _ | .nextval _ | .insertEdge _ | .giveUp _ | .removeEdge _ | .reconnect _ => .isTrue trivial

namespace EdgeIdAux

/-! ## One session -/

variable {s : EdgeSession} {batch : List Nat}

theorem held_idle (reservoir : List Nat) : EdgeSession.held ⟨reservoir, .idle⟩ = reservoir := List.append_nil _

/-- Taking an id from the reservoir hands it over. -/
theorem held_nextEdgeId (s : EdgeSession) : s.nextEdgeId.held.Perm s.reservoir := by
  obtain ⟨reservoir, creation⟩ := s
  cases reservoir with
  | nil => exact List.Perm.refl _
  | cons edgeId reservoir => exact List.perm_append_singleton edgeId reservoir

/-- A row of the query adds its value. -/
theorem held_fetch (h : s.creation = .fetching batch) (value : Nat) : (s.fetch batch value).held.Perm (value :: s.held) := by
  have hheld : (s.reservoir ++ (batch ++ [value])).Perm (value :: s.held) := by
    simp only [EdgeSession.held, h, ← List.append_assoc]
    exact List.perm_append_singleton value _
  unfold EdgeSession.fetch
  dsimp only
  split
  · exact hheld
  · exact (held_nextEdgeId _).trans hheld

/-- A session that gives up keeps no more than its reservoir. -/
theorem held_giveUp (s : EdgeSession) : (EdgeSession.held { s with creation := .idle }).Sublist s.held := by
  rw [held_idle]
  exact List.sublist_append_left _ _

/-! ## One step -/

variable {st st' : EdgeIdState} {e : EdgeIdEvent} {i : Nat}

/-- When one session changes, the ids in circulation change by what it holds. -/
theorem circulating_setSession (h : st.sessions[i]? = some s) :
    ∃ rest, st.circulating.Perm (s.held ++ rest) ∧ ∀ s', (st.setSession i s').circulating.Perm (s'.held ++ rest) := by
  obtain ⟨rest, hold, hnew⟩ := List.flatMap_set_perm EdgeSession.held h
  have hpull : ∀ held : List Nat, (st.live ++ (held ++ rest)).Perm (held ++ (st.live ++ rest)) := by
    intro held
    rw [← List.append_assoc, ← List.append_assoc]
    exact List.perm_append_comm.append_right rest
  exact ⟨st.live ++ rest, (hold.append_left st.live).trans (hpull _),
    fun s' => ((hnew s').append_left st.live).trans (hpull _)⟩

/-- A session that holds no more than before puts no more in circulation. -/
theorem circulating_subperm (h : st.sessions[i]? = some s) {s' : EdgeSession} (hs : s'.held.Subperm s.held) :
    (st.setSession i s').circulating.Subperm st.circulating := by
  obtain ⟨rest, hold, hnew⟩ := circulating_setSession h
  exact (hnew s').subperm.trans (((List.subperm_append_right rest).mpr hs).trans hold.symm.subperm)

/-- A session that holds one id more puts this id in circulation. -/
theorem circulating_perm_cons (h : st.sessions[i]? = some s) {s' : EdgeSession} {id : Nat}
    (hs : s'.held.Perm (id :: s.held)) : (st.setSession i s').circulating.Perm (id :: st.circulating) := by
  obtain ⟨rest, hold, hnew⟩ := circulating_setSession h
  exact (hnew s').trans ((hs.append_right rest).trans (hold.symm.cons id))

/-- A session that holds one id less takes this id out of circulation. -/
theorem cons_circulating_perm (h : st.sessions[i]? = some s) {s' : EdgeSession} {id : Nat}
    (hs : (id :: s'.held).Perm s.held) : (id :: (st.setSession i s').circulating).Perm st.circulating := by
  obtain ⟨rest, hold, hnew⟩ := circulating_setSession h
  exact ((hnew s').cons id).trans ((hs.append_right rest).trans hold.symm)

/-- What an event can do to the ids in circulation: they are handed over or dropped, the sequence deals another one, or none is
left. -/
theorem circulating_step (h : st.step e = some st') (hc : e.ClearsNothingHeld st) :
    (st'.lastValue = st.lastValue ∧ st'.circulating.Subperm st.circulating) ∨
      (st'.lastValue = st.lastValue + 1 ∧ st'.circulating.Perm (st'.lastValue :: st.circulating)) ∨
      st'.circulating = [] := by
  cases e with
  | createEdge i =>
    obtain ⟨s, hs, h⟩ := Option.bind_eq_some_iff.mp h
    split at h
    · next hidle =>
      cases h
      refine Or.inl ⟨rfl, circulating_subperm hs ((held_nextEdgeId s).subperm.trans ?_)⟩
      exact (List.sublist_append_left _ _).subperm
    · cases h
  | nextval i =>
    obtain ⟨s, hs, h⟩ := Option.bind_eq_some_iff.mp h
    split at h
    · next batch hfetching =>
      split at h
      · next value hvalue =>
        cases h
        obtain ⟨rfl, -⟩ := Db.nextval_eq_some hvalue
        exact Or.inr (Or.inl ⟨rfl, circulating_perm_cons hs (held_fetch hfetching _)⟩)
      · cases h
        exact Or.inl ⟨rfl, circulating_subperm hs (held_giveUp s).subperm⟩
    · cases h
  | insertEdge i =>
    obtain ⟨s, hs, h⟩ := Option.bind_eq_some_iff.mp h
    split at h
    · next edgeId hallocated =>
      cases h
      refine Or.inl ⟨rfl, (cons_circulating_perm hs ?_).subperm⟩
      rw [held_idle, EdgeSession.held, hallocated]
      exact (List.perm_append_singleton edgeId s.reservoir).symm
    · cases h
  | giveUp i =>
    obtain ⟨s, hs, h⟩ := Option.bind_eq_some_iff.mp h
    cases h
    exact Or.inl ⟨rfl, circulating_subperm hs (held_giveUp s).subperm⟩
  | removeEdge edgeId =>
    cases h
    exact Or.inl ⟨rfl, (List.subperm_append_right _).mpr List.erase_sublist.subperm⟩
  | clear =>
    simp only [EdgeIdState.step] at h
    split at h
    · cases h
    · cases h
      exact Or.inr (Or.inr (List.flatMap_eq_nil_iff.mpr hc))
  | reconnect i =>
    obtain ⟨s, hs, h⟩ := Option.bind_eq_some_iff.mp h
    cases h
    exact Or.inl ⟨rfl, circulating_subperm hs List.nil_subperm⟩

/-- The ids in circulation stay different. -/
theorem dealt_step (h : st.step e = some st') (hc : e.ClearsNothingHeld st) (hd : Dealt st.lastValue st.circulating) :
    Dealt st'.lastValue st'.circulating := by
  rcases circulating_step h hc with ⟨hlast, hids⟩ | ⟨hlast, hids⟩ | hnone
  · exact hlast ▸ hd.subperm hids
  · exact (hlast ▸ hd.next).subperm hids.subperm
  · exact hnone ▸ Dealt.nil _

/-- At the start no id is in circulation. -/
theorem circulating_start (sessions : Nat) : (EdgeIdState.start sessions).circulating = [] := by
  simp [EdgeIdState.circulating, EdgeIdState.start, EdgeSession.held, EdgeSession.new]

end EdgeIdAux

/-! ## Runs in which a session fills its reservoir -/

/-- A session creates an edge: it fills its reservoir first. -/
def firstEdge (session : Nat) : List EdgeIdEvent :=
  .createEdge session :: List.replicate idBatchSize (.nextval session) ++ [.insertEdge session]

namespace EdgeIdAux

variable {sessions : List EdgeSession} {i : Nat}

theorem getElem?_set_of_some {s : EdgeSession} (h : sessions[i]? = some s) (s' : EdgeSession) :
    (sessions.set i s')[i]? = some s' := List.getElem?_set_self (List.getElem?_eq_some_iff.mp h).1

theorem set_of_some {s : EdgeSession} (h : sessions[i]? = some s) : sessions.set i s = sessions := by
  obtain ⟨hlt, hget⟩ := List.getElem?_eq_some_iff.mp h
  rw [← hget, List.set_getElem_self]

/-- The rows of the query but the last. -/
theorem run_nextvals (live : List Nat) (k : Nat) :
    ∀ {last : Nat} {sessions : List EdgeSession} {batch : List Nat}, sessions[i]? = some ⟨[], .fetching batch⟩ →
      batch.length + k < idBatchSize → last + k + 1 < 2 ^ 63 →
      run EdgeIdState.step ⟨last, sessions, live⟩ (List.replicate k (.nextval i)) =
        some ⟨last + k, sessions.set i ⟨[], .fetching (batch ++ List.range' (last + 1) k)⟩, live⟩ := by
  induction k with
  | zero =>
    intro last sessions batch hs _ _
    rw [List.range'_zero, List.append_nil, set_of_some hs]
    rfl
  | succ k ih =>
    intro last sessions batch hs hlen hmax
    have hvalue : nextval last = some (last + 1) := if_pos (by omega)
    have hroom : (batch ++ [last + 1]).length + k < idBatchSize := by
      rw [List.length_append, List.length_singleton]
      omega
    have hstep : EdgeIdState.step ⟨last, sessions, live⟩ (.nextval i) =
        some ⟨last + 1, sessions.set i ⟨[], .fetching (batch ++ [last + 1])⟩, live⟩ := by
      simp only [EdgeIdState.step, hs, Option.bind_eq_bind, Option.bind_some, hvalue, EdgeSession.fetch,
        if_pos (Nat.lt_of_le_of_lt (Nat.le_add_right _ k) hroom), EdgeIdState.setSession]
    have hrest := ih (getElem?_set_of_some hs ⟨[], .fetching (batch ++ [last + 1])⟩) hroom
      (show last + 1 + k + 1 < 2 ^ 63 by omega)
    rw [List.replicate_succ]
    refine run_cons.mpr ⟨_, hstep, hrest.trans ?_⟩
    rw [List.set_set, List.append_assoc, List.singleton_append, ← List.range'_succ, Nat.add_assoc, Nat.add_comm 1 k]

/-- The last row of the query: the id in front of the batch is returned. -/
theorem fetch_last {batch reservoir : List Nat} {value edgeId : Nat} (hbatch : batch ++ [value] = edgeId :: reservoir)
    (hlen : batch.length + 1 = idBatchSize) :
    EdgeSession.fetch ⟨[], .fetching batch⟩ batch value = ⟨reservoir, .allocated edgeId⟩ := by
  have hfull : ¬(batch ++ [value]).length < idBatchSize := by
    rw [List.length_append, List.length_singleton, hlen]
    exact Nat.lt_irrefl _
  unfold EdgeSession.fetch
  dsimp only
  rw [if_neg hfull, List.nil_append, hbatch]
  rfl

/-- The first edge of a session takes a block of values; its id is the first of them. -/
theorem run_firstEdge {last : Nat} {live : List Nat} (hs : sessions[i]? = some .new) (hmax : last + idBatchSize < 2 ^ 63) :
    run EdgeIdState.step ⟨last, sessions, live⟩ (firstEdge i) =
      some ⟨last + idBatchSize, sessions.set i ⟨List.range' (last + 2) (idBatchSize - 1), .idle⟩, (last + 1) :: live⟩ := by
  have hcreate : EdgeIdState.step ⟨last, sessions, live⟩ (.createEdge i) =
      some ⟨last, sessions.set i ⟨[], .fetching []⟩, live⟩ := by
    simp only [EdgeIdState.step, hs, Option.bind_eq_bind, Option.bind_some]
    rfl
  have hrows := run_nextvals live (idBatchSize - 1) (getElem?_set_of_some hs ⟨[], .fetching []⟩) (by decide)
    (show last + (idBatchSize - 1) + 1 < 2 ^ 63 by simp only [idBatchSize] at hmax ⊢; omega)
  rw [List.set_set, List.nil_append] at hrows
  have hbatch : List.range' (last + 1) (idBatchSize - 1) ++ [last + idBatchSize] =
      (last + 1) :: List.range' (last + 2) (idBatchSize - 1) := by
    have hvalue : last + idBatchSize = last + 1 + 1 * (idBatchSize - 1) := by simp only [idBatchSize]
    rw [hvalue, ← List.range'_concat, List.range'_succ]
  have hfetched : EdgeIdState.step
      ⟨last + (idBatchSize - 1), sessions.set i ⟨[], .fetching (List.range' (last + 1) (idBatchSize - 1))⟩, live⟩ (.nextval i) =
        some ⟨last + idBatchSize, sessions.set i ⟨List.range' (last + 2) (idBatchSize - 1), .allocated (last + 1)⟩, live⟩ := by
    have hvalue : nextval (last + (idBatchSize - 1)) = some (last + idBatchSize) := if_pos hmax
    simp only [EdgeIdState.step, getElem?_set_of_some hs, Option.bind_eq_bind, Option.bind_some, hvalue,
      fetch_last hbatch (by rw [List.length_range']; rfl), EdgeIdState.setSession, List.set_set]
  have hinserted : EdgeIdState.step
      ⟨last + idBatchSize, sessions.set i ⟨List.range' (last + 2) (idBatchSize - 1), .allocated (last + 1)⟩, live⟩
        (.insertEdge i) =
      some ⟨last + idBatchSize, sessions.set i ⟨List.range' (last + 2) (idBatchSize - 1), .idle⟩, (last + 1) :: live⟩ := by
    simp only [EdgeIdState.step, getElem?_set_of_some hs, Option.bind_eq_bind, Option.bind_some, EdgeIdState.setSession,
      List.set_set]
  have hreplicate : List.replicate idBatchSize (EdgeIdEvent.nextval i) =
      List.replicate (idBatchSize - 1) (.nextval i) ++ [.nextval i] := List.replicate_succ' (n := idBatchSize - 1)
  rw [firstEdge, hreplicate, List.cons_append, List.append_assoc, List.singleton_append]
  refine run_cons.mpr ⟨_, hcreate, ?_⟩
  rw [run_append, hrows, Option.bind_some]
  exact run_cons.mpr ⟨_, hfetched, run_cons.mpr ⟨_, hinserted, rfl⟩⟩

/-- The next edge of a session gets the id in front of its reservoir. -/
theorem run_nextEdge {last edgeId : Nat} {live reservoir : List Nat} (hs : sessions[i]? = some ⟨edgeId :: reservoir, .idle⟩) :
    run EdgeIdState.step ⟨last, sessions, live⟩ [.createEdge i, .insertEdge i] =
      some ⟨last, sessions.set i ⟨reservoir, .idle⟩, edgeId :: live⟩ := by
  have hcreate : EdgeIdState.step ⟨last, sessions, live⟩ (.createEdge i) =
      some ⟨last, sessions.set i ⟨reservoir, .allocated edgeId⟩, live⟩ := by
    simp only [EdgeIdState.step, hs, Option.bind_eq_bind, Option.bind_some]
    rfl
  refine run_cons.mpr ⟨_, hcreate, ?_⟩
  simp only [run, EdgeIdState.step, getElem?_set_of_some hs, Option.bind_eq_bind, Option.bind_some, EdgeIdState.setSession,
    List.set_set]

/-- The first edge of a session calls no `clear`. -/
theorem firstEdge_clearsNothingHeld (st : EdgeIdState) (i : Nat) :
    EveryCall EdgeIdState.step EdgeIdEvent.ClearsNothingHeld st (firstEdge i) := by
  refine (EveryCall.of_forall (D := fun e => e ≠ .clear) fun e he => ?_).mono fun st e he => ?_
  · rcases List.mem_append.mp he with he | he
    · rcases List.mem_cons.mp he with rfl | he
      · nofun
      · rw [List.eq_of_mem_replicate he]
        nofun
    · rw [List.mem_singleton.mp he]
      nofun
  · cases e with
    | clear => exact absurd rfl he
    | _ => trivial

end EdgeIdAux

/-- After its first edge a session calls `clear` and creates another edge, from its reservoir; then a new session creates two. -/
def staleReservoir : List EdgeIdEvent :=
  firstEdge 0 ++ [.clear] ++ [.createEdge 0, .insertEdge 0] ++ firstEdge 1 ++ [.createEdge 1, .insertEdge 1]

end PgEddy
