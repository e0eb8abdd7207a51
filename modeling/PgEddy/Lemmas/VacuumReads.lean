import Mathlib.Data.List.Forall2
import PgEddy.Lemmas.Vacuums
import PgEddy.Lemmas.Owners

/-!
# Reads after a vacuum

A vacuum takes marked versions away and clears the headers their slots name. Every read of a node looks at unmarked versions
only, so the reads and the locations of nodes are what they were; what can change is a header.
-/

namespace PgEddy

open PagedStore

section Reads

variable {hz : VacuumHorizon} {nodes nodes' : Relation}

theorem VacuumHorizon.marked_of_removes {hz : VacuumHorizon} {hdr : HeapTupleHeader} (h : hz.removes hdr = true) :
    hdr.xmaxInvalid = false := by
  cases hx : hdr.xmaxInvalid with
  | false => rfl
  | true => simp [VacuumHorizon.removes, hx] at h

/-- Block by block. -/
theorem vacuumed_getElem? (h : List.Forall₂ (Page.Vacuumed hz) nodes nodes') (b : Nat) :
    (nodes[b]? = none ∧ nodes'[b]? = none) ∨ ∃ p p', nodes[b]? = some p ∧ nodes'[b]? = some p' ∧ p.Vacuumed hz p' := by
  induction h generalizing b with
  | nil => exact Or.inl ⟨rfl, rfl⟩
  | cons hv _ ih =>
    cases b with
    | zero => exact Or.inr ⟨_, _, rfl, rfl, hv⟩
    | succ b => simpa only [List.getElem?_cons_succ] using ih b

theorem versionAt_vacuumed (h : List.Forall₂ (Page.Vacuumed hz) nodes nodes') (loc : Nat × Nat) :
    versionAt nodes' loc = (versionAt nodes loc).filter (fun v => !hz.removes v.hdr) := by
  rcases vacuumed_getElem? h loc.1 with ⟨hp, hp'⟩ | ⟨p, p', hp, hp', hv⟩
  · simp only [versionAt, hp, hp', Option.bind_none, Option.filter_none]
  · simp only [versionAt, hp, hp', Option.bind_some, hv.versionAt]

theorem headerAt_vacuumed (h : List.Forall₂ (Page.Vacuumed hz) nodes nodes') {b a : Nat} :
    (∃ o v, versionAt nodes (b, o) = some v ∧ hz.removes v.hdr = true ∧ v.slot = a) ∧
        headerAt nodes' (b, a) = some NodeAdjHeader.zero ∨
      (¬∃ o v, versionAt nodes (b, o) = some v ∧ hz.removes v.hdr = true ∧ v.slot = a) ∧
        headerAt nodes' (b, a) = headerAt nodes (b, a) := by
  rcases vacuumed_getElem? h b with ⟨hp, hp'⟩ | ⟨p, p', hp, hp', hv⟩
  · refine Or.inr ⟨?_, by simp only [headerAt, hp, hp']⟩
    rintro ⟨o, v, hov, -⟩
    simp [versionAt, hp] at hov
  · have hiff : (∃ o v, versionAt nodes (b, o) = some v ∧ hz.removes v.hdr = true ∧ v.slot = a) ↔
        a ∈ deadAdjSlots hz true p := by
      simp only [mem_deadAdjSlots, versionAt, hp, Option.bind_some]
    have hh := hv.headers a
    rw [hiff]
    by_cases ha : a ∈ deadAdjSlots hz true p
    · rw [if_pos ha] at hh
      exact Or.inl ⟨ha, by simp only [headerAt, hp', Option.bind_some, hh]⟩
    · rw [if_neg ha] at hh
      exact Or.inr ⟨ha, by simp only [headerAt, hp, hp', Option.bind_some, hh]⟩

/-- The versions a scan meets. -/
theorem versions_vacuumed (h : List.Forall₂ (Page.Vacuumed hz) nodes nodes') :
    versions nodes' = (versions nodes).filterMap (fun lv => if hz.removes lv.2.hdr then none else some lv) := by
  have hscan : scan nodeSize nodeRead nodes' =
      (scan nodeSize (fun p b o => (nodeRead p b o).bind (fun lv => if hz.removes lv.2.hdr then none else some lv))
        nodes).map id := by
    refine scan_map id h.length_eq.symm fun b p p' hp hp' => ?_
    rcases vacuumed_getElem? h b with ⟨hn, -⟩ | ⟨q, q', hq, hq', hv⟩
    · rw [hp] at hn
      cases hn
    · cases hp.symm.trans hq
      cases hp'.symm.trans hq'
      refine ⟨by rw [nodeSize, nodeSize, hv.overflow, hv.maxOffset], fun o _ _ => ?_⟩
      rw [nodeRead, nodeRead, hv.versionAt, Option.map_id]
      cases p.versionAt o with
      | none => rfl
      | some v => by_cases hr : hz.removes v.hdr = true <;> simp [Option.filter_some, hr]
  rw [versions, hscan, List.map_id, scan_bind]
  rfl

/-- What is found among the unmarked versions is what was found. -/
theorem filterMap_versions_vacuumed (h : List.Forall₂ (Page.Vacuumed hz) nodes nodes') {β : Type}
    (f : (Nat × Nat) × NodeVersion → Option β) (hf : ∀ lv, lv.2.unmarked = false → f lv = none) :
    (versions nodes').filterMap f = (versions nodes).filterMap f := by
  rw [versions_vacuumed h, List.filterMap_filterMap]
  refine List.filterMap_congr fun lv _ => ?_
  by_cases hr : hz.removes lv.2.hdr = true
  · simp [hr, hf lv (VacuumHorizon.marked_of_removes hr)]
  · simp [hr]

theorem NodeVersion.read_of_marked {be : Backend} {snapshot : Option Snapshot} {v : NodeVersion} (h : v.unmarked = false) :
    v.read be snapshot = none := by
  have hx : v.hdr.xmaxInvalid = false := h
  simp [NodeVersion.read, hx]

theorem readNodeAtOffset_vacuumed {p p' : Page} (hv : p.Vacuumed hz p') (be : Backend) (snapshot : Option Snapshot)
    (off : Nat) : readNodeAtOffset be p' snapshot off = readNodeAtOffset be p snapshot off := by
  rw [readNodeAtOffset_eq, readNodeAtOffset_eq, hv.versionAt]
  cases p.versionAt off with
  | none => rfl
  | some v =>
    by_cases hr : hz.removes v.hdr = true
    · simp [Option.filter_some, hr, NodeVersion.read_of_marked (VacuumHorizon.marked_of_removes hr)]
    · simp [Option.filter_some, hr]

theorem resolveOverflow_vacuumed (h : List.Forall₂ (Page.Vacuumed hz) nodes nodes') (r : NodeRecord) :
    resolveOverflow nodes' r = resolveOverflow nodes r := by
  have hread : ∀ blkno, readOverflowBlock nodes' blkno = readOverflowBlock nodes blkno := by
    intro blkno
    rcases vacuumed_getElem? h blkno with ⟨hp, hp'⟩ | ⟨p, p', hp, hp', hv⟩
    · simp only [readOverflowBlock, readBuffer, hp, hp']
    · simp only [readOverflowBlock, readBuffer, hp, hp', Except.map, hv.item]
  simp only [resolveOverflow, hread]

theorem scanNodeById_vacuumed (h : List.Forall₂ (Page.Vacuumed hz) nodes nodes') (be : Backend) (nodeId : Int64)
    (snapshot : Option Snapshot) : scanNodeById be nodes' nodeId snapshot = scanNodeById be nodes nodeId snapshot := by
  rw [scanNodeById_eq, scanNodeById_eq, filterMap_versions_vacuumed h]
  intro lv hm
  rw [NodeVersion.read_of_marked hm]
  rfl

/-- `find_node_by_id` returns what it returned. -/
theorem findNodeById_vacuumed (h : List.Forall₂ (Page.Vacuumed hz) nodes nodes') (be : Backend) (cache : LocationCache)
    (nodeId : Int64) (snapshot : Option Snapshot) :
    findNodeById be cache nodes' nodeId snapshot = findNodeById be cache nodes nodeId snapshot := by
  simp only [findNodeById, scanNodeById_vacuumed h, resolveOverflow_vacuumed h]
  cases cache nodeId with
  | none => rfl
  | some bo =>
    rcases vacuumed_getElem? h bo.1 with ⟨hp, hp'⟩ | ⟨p, p', hp, hp', hv⟩
    · simp only [readBuffer, hp, hp']
    · simp only [readBuffer, hp, hp']
      simp only [bind, Except.bind, readNodeAtOffset_vacuumed hv]

/-- `find_node_location` finds what it found. -/
theorem findNodeLocation_vacuumed (h : List.Forall₂ (Page.Vacuumed hz) nodes nodes') (cache : LocationCache)
    (nodeId : Int64) : findNodeLocation cache nodes' nodeId = findNodeLocation cache nodes nodeId := by
  have hscan : scanNodeLocation nodes' nodeId = scanNodeLocation nodes nodeId := by
    rw [scanNodeLocation_eq, scanNodeLocation_eq, filterMap_versions_vacuumed h]
    intro lv hm
    simp [hm]
  simp only [findNodeLocation, hscan]
  cases cache nodeId with
  | none => rfl
  | some bo =>
    rcases vacuumed_getElem? h bo.1 with ⟨hp, hp'⟩ | ⟨p, p', hp, hp', hv⟩
    · simp only [hp, hp']
    · have hat : locationAt p' bo.2 nodeId = locationAt p bo.2 nodeId := by
        rw [locationAt_eq, locationAt_eq, hv.versionAt]
        cases p.versionAt bo.2 with
        | none => rfl
        | some v =>
          by_cases hr : hz.removes v.hdr = true
          · have hm : v.unmarked = false := VacuumHorizon.marked_of_removes hr
            simp [Option.filter_some, hr, hm]
          · simp [Option.filter_some, hr]
      simp only [hp, hp', hat]

theorem nodePages_vacuumed (h : List.Forall₂ (Page.Vacuumed hz) nodes nodes') (hn : NodePages nodes) : NodePages nodes' := by
  intro q hq
  obtain ⟨b, hb⟩ := List.getElem?_of_mem hq
  rcases vacuumed_getElem? h b with ⟨-, hp'⟩ | ⟨p, p', hp, hp', hv⟩
  · rw [hb] at hp'
    cases hp'
  · cases hb.symm.trans hp'
    rcases hn p (List.mem_of_getElem? hp) with hnp | ho
    · exact Or.inl (hv.nodePage hnp)
    · exact Or.inr (hv.overflowBlock ho ▸ ho)

end Reads

end PgEddy
