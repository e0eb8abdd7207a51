import PgEddy.Vacuum
import PgEddy.Lemmas.NodeOps

/-!
# What vacuum does to a node relation

On a node page the versions whose deleter the horizon lets go are marked LP_DEAD and the headers of their slots are cleared;
everything a reader looks at stays. Other blocks of the relation are left as they are.
-/

namespace PgEddy

open ByteBuffer

/-! ## Marking -/

theorem markDead_cons (p : Page) (off : Nat) (offs : List Nat) :
    markDead p (off :: offs) =
      markDead (p.modify off (fun i => if i.lpFlags = .normal then { i with lpFlags := .dead } else i)) offs := rfl

@[simp] theorem Page.maxOffset_markDead (p : Page) (offs : List Nat) : (markDead p offs).maxOffset = p.maxOffset := by
  induction offs generalizing p with
  | nil => rfl
  | cons off offs ih => rw [markDead_cons, ih, Page.maxOffset_modify]

@[simp] theorem Page.special_markDead (p : Page) (offs : List Nat) : (markDead p offs).special = p.special := by
  induction offs generalizing p with
  | nil => rfl
  | cons off offs ih => rw [markDead_cons, ih, Page.special_modify]

theorem Page.AllUsed.markDead {p : Page} (h : p.AllUsed) (offs : List Nat) : (markDead p offs).AllUsed := by
  induction offs generalizing p with
  | nil => exact h
  | cons off offs ih =>
    refine ih fun i hi => ?_
    rcases Page.mem_modify hi with hi | ⟨j, hj, rfl⟩
    · exact h i hi
    · split
      · simp
      · exact h j hj

theorem Page.itemId_markDead {p : Page} {offs : List Nat} (h : ∀ o ∈ offs, 1 ≤ o ∧ o ≤ p.maxOffset) (o : Nat) :
    (markDead p offs).itemId o =
      if o ∈ offs ∧ (p.itemId o).lpFlags = .normal then ⟨.dead, (p.itemId o).item⟩ else p.itemId o := by
  induction offs generalizing p with
  | nil => simp [markDead]
  | cons off offs ih =>
    obtain ⟨hoff, hoffs⟩ := List.forall_mem_cons.mp h
    rw [markDead_cons, ih (by simpa using hoffs)]
    rw [Page.itemId_modify hoff.1 hoff.2]
    by_cases he : o = off
    · subst he
      by_cases hn : (p.itemId o).lpFlags = .normal <;> simp [hn]
    · simp [he]

theorem mem_offsets {p : Page} {o : Nat} : o ∈ p.offsets ↔ 1 ≤ o ∧ o ≤ p.maxOffset := by
  simp only [Page.offsets, List.mem_range'_1]
  omega

theorem deadOffsets_le {hz : VacuumHorizon} {isNodePage : Bool} {p : Page} {o : Nat} (h : o ∈ deadOffsets hz isNodePage p) :
    1 ≤ o ∧ o ≤ p.maxOffset := mem_offsets.mp (List.mem_filter.mp h).1

/-- The collecting loop finds an LP_NORMAL record dead exactly if the horizon removes it. -/
theorem mem_deadOffsets {hz : VacuumHorizon} {isNodePage : Bool} {p : Page} {o : Nat} :
    o ∈ deadOffsets hz isNodePage p ↔
      ∃ hdr data, p.itemId o = ⟨.normal, .tuple hdr data⟩ ∧ 1 ≤ data.length ∧ hz.removes hdr = true := by
  rw [deadOffsets, List.mem_filter]
  constructor
  · rintro ⟨-, hv⟩
    rcases hi : p.itemId o with ⟨flags, ⟨hdr, data⟩ | bytes⟩
    · cases flags <;> simp only [vacuumVerdict, hi, Bool.false_eq_true] at hv
      refine ⟨hdr, data, rfl, ?_⟩
      by_cases hl : data.length < 1
      · simp [hl] at hv
      · by_cases hx : hdr.xmaxInvalid = true
        · simp [hl, hx] at hv
        · by_cases hr : hz.removes hdr = true
          · exact ⟨Nat.not_lt.mp hl, hr⟩
          · simp [hl, hx, hr] at hv
    · cases flags <;> simp [vacuumVerdict, hi] at hv
  · rintro ⟨hdr, data, hi, hl, hr⟩
    have hx : ¬hdr.xmaxInvalid = true := by
      intro hx
      simp [VacuumHorizon.removes, hx] at hr
    refine ⟨mem_offsets.mpr (Page.offset_of_used (by simp [hi])), ?_⟩
    simp only [vacuumVerdict, hi, Nat.not_lt.mpr hl, hx, hr, if_false, if_true, Bool.false_eq_true]

/-- The slots the collecting loop passes on are those of the versions the horizon removes. -/
theorem mem_deadAdjSlots {hz : VacuumHorizon} {p : Page} {a : Nat} :
    a ∈ deadAdjSlots hz true p ↔ ∃ o v, p.versionAt o = some v ∧ hz.removes v.hdr = true ∧ v.slot = a := by
  rw [deadAdjSlots, List.mem_filterMap]
  constructor
  · rintro ⟨o, -, hv⟩
    rcases hi : p.itemId o with ⟨flags, ⟨hdr, data⟩ | bytes⟩
    · cases flags <;> simp only [vacuumVerdict, hi, reduceCtorEq] at hv
      by_cases hl : data.length < 1
      · simp [hl] at hv
      · by_cases hx : hdr.xmaxInvalid = true
        · simp [hl, hx] at hv
        · by_cases hr : hz.removes hdr = true
          · by_cases hn : nodeFixedDataSize ≤ data.length
            · simp only [hl, hx, hr, hn, if_false, if_true, and_self, Bool.false_eq_true, Option.some.injEq] at hv
              exact ⟨o, ⟨hdr, data⟩, by simp [Page.versionAt, hi, hn], hr, hv⟩
            · simp [hl, hx, hr, hn] at hv
          · simp [hl, hx, hr] at hv
    · cases flags <;> simp [vacuumVerdict, hi] at hv
  · rintro ⟨o, v, hv, hr, rfl⟩
    have hn := Page.length_of_versionAt hv
    have hl : ¬v.data.length < 1 := by simp only [nodeFixedDataSize] at hn; omega
    have hx : ¬v.hdr.xmaxInvalid = true := by
      intro hx
      simp [VacuumHorizon.removes, hx] at hr
    refine ⟨o, mem_offsets.mpr (Page.offset_of_versionAt hv), ?_⟩
    simp only [vacuumVerdict, Page.itemId_of_versionAt hv, hl, hx, hr, hn, if_false, if_true, and_self, Bool.false_eq_true]
    rfl

/-! ## Clearing -/

theorem clearAdjHeaders_cons (p : Page) (slot : Nat) (slots : List Nat) :
    clearAdjHeaders p (slot :: slots) =
      if slot < p.special.length then clearAdjHeaders (writeAdjHeader p slot NodeAdjHeader.zero) slots else none := by
  simp only [clearAdjHeaders, readAdjHeader]
  split
  · next h => rw [if_neg (Nat.not_lt.mpr (List.getElem?_eq_none_iff.mp h))]
  · next h => rw [if_pos (List.getElem?_eq_some_iff.mp h).1]

/-- A page with the headers of some slots cleared. -/
structure Page.Cleared (slots : List Nat) (p c : Page) : Prop where
  linp : c.linp = p.linp
  pdUpper : c.pdUpper = p.pdUpper
  length : c.special.length = p.special.length
  headers : ∀ a, readAdjHeader c a = if a ∈ slots then some NodeAdjHeader.zero else readAdjHeader p a

/-- The clearing loop clears the headers when all slots are in the special area, and leaves it otherwise. -/
theorem clearAdjHeaders_cases (p : Page) (slots : List Nat) :
    ((∀ a ∈ slots, a < p.special.length) ∧ ∃ c, clearAdjHeaders p slots = some c ∧ p.Cleared slots c) ∨
      ((∃ a ∈ slots, ¬a < p.special.length) ∧ clearAdjHeaders p slots = none) := by
  induction slots generalizing p with
  | nil => exact Or.inl ⟨by simp, p, rfl, rfl, rfl, rfl, by simp⟩
  | cons slot slots ih =>
    rw [clearAdjHeaders_cons]
    by_cases hs : slot < p.special.length
    · have hlen : (writeAdjHeader p slot NodeAdjHeader.zero).special.length = p.special.length := by simp [writeAdjHeader]
      rw [if_pos hs]
      rcases ih (writeAdjHeader p slot NodeAdjHeader.zero) with ⟨hall, c, hc, hcl⟩ | ⟨⟨a, ha, hn⟩, hc⟩
      · refine Or.inl ⟨by simpa [hs, hlen] using hall, c, hc, hcl.linp, hcl.pdUpper, hcl.length.trans hlen, fun a => ?_⟩
        rw [hcl.headers, readAdjHeader_writeAdjHeader p slot a _ (by simp [readAdjHeader, hs])]
        by_cases ha : a ∈ slots
        · simp [ha]
        · by_cases he : a = slot <;> simp [ha, he]
      · exact Or.inr ⟨⟨a, List.mem_cons_of_mem _ ha, hlen ▸ hn⟩, hc⟩
    · exact Or.inr ⟨⟨slot, List.mem_cons_self, hs⟩, if_neg hs⟩

/-! ## One block -/

/-- What vacuum leaves of a page of a node relation. -/
structure Page.Vacuumed (hz : VacuumHorizon) (p p' : Page) : Prop where
  overflow : isOverflowPage p' = isOverflowPage p
  nodePage : p.IsNodePage → p'.IsNodePage
  overflowBlock : p.IsOverflowBlock → p' = p
  maxOffset : p'.maxOffset = p.maxOffset
  item : ∀ o, (p'.itemId o).item = (p.itemId o).item
  versionAt : ∀ o, p'.versionAt o = (p.versionAt o).filter (fun v => !hz.removes v.hdr)
  headers : ∀ a, readAdjHeader p' a = if a ∈ deadAdjSlots hz true p then some NodeAdjHeader.zero else readAdjHeader p a

/-- On a page without a removed record nothing changes. -/
theorem Page.vacuumed_refl {hz : VacuumHorizon} {p : Page} (h : ∀ o, o ∉ deadOffsets hz true p) : p.Vacuumed hz p where
  overflow := rfl
  nodePage := fun hp => hp
  overflowBlock := fun _ => rfl
  maxOffset := rfl
  item := fun _ => rfl
  versionAt := by
    intro o
    cases hv : p.versionAt o with
    | none => rfl
    | some v =>
      have hr : ¬hz.removes v.hdr = true := by
        intro hr
        have hl := Page.length_of_versionAt hv
        exact h o (mem_deadOffsets.mpr ⟨v.hdr, v.data, Page.itemId_of_versionAt hv, by
          simp only [nodeFixedDataSize] at hl; omega, hr⟩)
      simp [Option.filter_some, hr]
  headers := by
    intro a
    rw [if_neg]
    rw [mem_deadAdjSlots]
    rintro ⟨o, v, hv, hr, -⟩
    have hl := Page.length_of_versionAt hv
    exact h o (mem_deadOffsets.mpr ⟨v.hdr, v.data, Page.itemId_of_versionAt hv, by
      simp only [nodeFixedDataSize] at hl; omega, hr⟩)

theorem versionAt_markDead (hz : VacuumHorizon) (p : Page) (o : Nat) :
    (markDead p (deadOffsets hz true p)).versionAt o = (p.versionAt o).filter (fun v => !hz.removes v.hdr) := by
  have hrange : ∀ o ∈ deadOffsets hz true p, 1 ≤ o ∧ o ≤ p.maxOffset := fun o ho => deadOffsets_le ho
  have hitem := Page.itemId_markDead hrange o
  cases hv : p.versionAt o with
  | some v =>
    have hi := Page.itemId_of_versionAt hv
    have hl := Page.length_of_versionAt hv
    by_cases hr : hz.removes v.hdr = true
    · have hmem : o ∈ deadOffsets hz true p :=
        mem_deadOffsets.mpr ⟨v.hdr, v.data, hi, by simp only [nodeFixedDataSize] at hl; omega, hr⟩
      simp [Page.versionAt, hitem, hmem, hi, Option.filter_some, hr]
    · have hmem : o ∉ deadOffsets hz true p := by
        intro hmem
        obtain ⟨hdr, data, hi', -, hr'⟩ := mem_deadOffsets.mp hmem
        rw [hi] at hi'
        cases hi'
        exact hr hr'
      simp [Page.versionAt, hitem, hmem, hi, Option.filter_some, hr, Nat.not_lt.mpr hl]
  | none =>
    by_cases hmem : o ∈ deadOffsets hz true p ∧ (p.itemId o).lpFlags = .normal
    · simp [Page.versionAt, hitem, hmem]
    · have hsame : (markDead p (deadOffsets hz true p)).itemId o = p.itemId o := by rw [hitem, if_neg hmem]
      simpa [Page.versionAt, hsame] using hv

/-- A page marked, cleared and compacted. -/
theorem vacuumed_compact (pg : PgSys) {hz : VacuumHorizon} {p c : Page} (hn : p.IsNodePage)
    (hc : (markDead p (deadOffsets hz true p)).Cleared (deadAdjSlots hz true p) c) :
    p.Vacuumed hz (pg.pageRepairFragmentation c) := by
  have hused : c.AllUsed := by
    intro i hi
    exact hn.used.markDead (deadOffsets hz true p) i (hc.linp ▸ hi)
  have hlinp : (pg.pageRepairFragmentation c).linp = (markDead p (deadOffsets hz true p)).linp := by
    rw [pg.repair_linp c hused, hc.linp]
  have hitemId : ∀ o, (pg.pageRepairFragmentation c).itemId o = (markDead p (deadOffsets hz true p)).itemId o := by
    intro o
    rw [Page.itemId, Page.itemId, hlinp]
  have hspecial : (pg.pageRepairFragmentation c).special.length = p.special.length := by
    rw [pg.repair_special, hc.length, Page.special_markDead]
  have hpd : (pg.pageRepairFragmentation c).pdSpecial = p.pdSpecial := by rw [Page.pdSpecial, Page.pdSpecial, hspecial]
  have hmax : (markDead p (deadOffsets hz true p)).maxOffset = p.maxOffset := Page.maxOffset_markDead _ _
  exact {
    overflow := by rw [isOverflowPage, isOverflowPage, hpd]
    nodePage := fun _ =>
      { used := fun i hi => hused i (by rwa [pg.repair_linp c hused] at hi)
        headers := by rw [hspecial, hn.headers]
        upper := by
          refine Nat.le_trans (pg.repair_upper c hused) ?_
          rw [Page.pdSpecial]
          exact Nat.sub_le _ _ }
    overflowBlock := fun ho => by
      have := hn.not_overflow
      rw [ho.overflow] at this
      cases this
    maxOffset := by
      rw [← hmax, Page.maxOffset, Page.maxOffset, hlinp]
    item := fun o => by
      rw [hitemId, Page.itemId_markDead fun o ho => deadOffsets_le ho]
      split <;> rfl
    versionAt := fun o => by
      rw [← versionAt_markDead, Page.versionAt, Page.versionAt, hitemId]
    headers := fun a => by
      rw [readAdjHeader, pg.repair_special]
      have := hc.headers a
      simpa only [readAdjHeader, Page.special_markDead] using this }

/-- Vacuum of a node page: it takes every removed version, or meets a slot outside the special area. -/
theorem vacuumBlock_node (pg : PgSys) (hz : VacuumHorizon) {p : Page} (hn : p.IsNodePage) (blkno : Nat) :
    ((∀ a ∈ deadAdjSlots hz true p, a < maxNodeSlotsPerPage) ∧ ∃ p' stats,
        vacuumBlock pg hz p blkno =
          .ok (p', stats, if deadOffsets hz true p = [] then [] else [.nodeCompact blkno p']) ∧
        (deadOffsets hz true p = [] → p' = p) ∧ p.Vacuumed hz p') ∨
      ((∃ a ∈ deadAdjSlots hz true p, ¬a < maxNodeSlotsPerPage) ∧ vacuumBlock pg hz p blkno = .error .outOfPage) := by
  have hpd : (p.pdSpecial != blcksz) = true := by
    rw [Page.pdSpecial, hn.headers]
    decide
  have hsp : (markDead p (deadOffsets hz true p)).special.length = maxNodeSlotsPerPage := by
    rw [Page.special_markDead, hn.headers]
  by_cases hd : deadOffsets hz true p = []
  · have hnone : ∀ o, o ∉ deadOffsets hz true p := by simp [hd]
    refine Or.inl ⟨fun a ha => ?_, p, _, by simp only [vacuumBlock, hn.not_overflow, hpd, hd, if_true]; rfl,
      fun _ => rfl, Page.vacuumed_refl hnone⟩
    obtain ⟨o, v, hv, hr, -⟩ := mem_deadAdjSlots.mp ha
    have hl := Page.length_of_versionAt hv
    exact absurd (mem_deadOffsets.mpr ⟨v.hdr, v.data, Page.itemId_of_versionAt hv, by
      simp only [nodeFixedDataSize] at hl; omega, hr⟩) (hnone o)
  · rcases clearAdjHeaders_cases (markDead p (deadOffsets hz true p)) (deadAdjSlots hz true p) with
      ⟨hall, c, hc, hcl⟩ | ⟨hout, hc⟩
    · refine Or.inl ⟨hsp ▸ hall, pg.pageRepairFragmentation c, ⟨(deadOffsets hz true p).length, liveCount hz true p, 0, 0⟩,
        ?_, fun he => absurd he hd, vacuumed_compact pg hn hcl⟩
      simp only [vacuumBlock, hn.not_overflow, hpd, hd, if_false, if_true, compactNodePage, hc, Option.map_some,
        Bool.false_eq_true]
    · refine Or.inr ⟨hsp ▸ hout, ?_⟩
      simp only [vacuumBlock, hn.not_overflow, hpd, hd, if_false, if_true, compactNodePage, hc, Option.map_none,
        Bool.false_eq_true]

/-- Vacuum skips an overflow block. -/
theorem vacuumBlock_overflow (pg : PgSys) (hz : VacuumHorizon) {p : Page} (ho : p.IsOverflowBlock) (blkno : Nat) :
    vacuumBlock pg hz p blkno = .ok (p, ⟨0, 0, 0, 0⟩, []) ∧ p.Vacuumed hz p := by
  refine ⟨by simp only [vacuumBlock, ho.overflow, if_true], Page.vacuumed_refl fun o hmem => ?_⟩
  obtain ⟨hdr, data, hi, -⟩ := mem_deadOffsets.mp hmem
  obtain ⟨h1, h2⟩ := deadOffsets_le hmem
  obtain ⟨bytes, hb⟩ := ho.raw _ (Page.itemId_mem h1 h2)
  rw [hi] at hb
  cases hb

/-! ## The relation -/

theorem vacuumBlocks_cons {pg : PgSys} {hz : VacuumHorizon} {p : Page} {blkno : Nat} {rest : List (Page × Nat)} {p' : Page}
    {stats : VacuumStats} {recs : List WalRecord} (h : vacuumBlock pg hz p blkno = .ok (p', stats, recs)) :
    vacuumBlocks pg hz ((p, blkno) :: rest) =
      (vacuumBlocks pg hz rest).map (fun r => (p' :: r.1, stats.add r.2.1, recs ++ r.2.2)) := by
  simp only [vacuumBlocks, h]
  cases vacuumBlocks pg hz rest <;> rfl

/-- Vacuum of the blocks goes through, block by block, or meets a slot outside the special area. -/
theorem vacuumBlocks_cases (pg : PgSys) (hz : VacuumHorizon) :
    ∀ (nodes : Relation) (k : Nat), NodePages nodes →
      ((∀ p ∈ nodes, ∀ a ∈ deadAdjSlots hz true p, a < maxNodeSlotsPerPage) ∧
        ∃ nodes' stats recs, vacuumBlocks pg hz (nodes.zipIdx k) = .ok (nodes', stats, recs) ∧
          List.Forall₂ (Page.Vacuumed hz) nodes nodes') ∨
        ((∃ p ∈ nodes, ∃ a ∈ deadAdjSlots hz true p, ¬a < maxNodeSlotsPerPage) ∧
          vacuumBlocks pg hz (nodes.zipIdx k) = .error .outOfPage)
  | [], _, _ => Or.inl ⟨by simp, [], _, [], rfl, .nil⟩
  | p :: nodes, k, hn => by
    obtain ⟨hp, hrest⟩ := List.forall_mem_cons.mp hn
    rw [List.zipIdx_cons]
    have hblock : ((∀ a ∈ deadAdjSlots hz true p, a < maxNodeSlotsPerPage) ∧ ∃ p' stats recs,
        vacuumBlock pg hz p k = .ok (p', stats, recs) ∧ p.Vacuumed hz p') ∨
        ((∃ a ∈ deadAdjSlots hz true p, ¬a < maxNodeSlotsPerPage) ∧ vacuumBlock pg hz p k = .error .outOfPage) := by
      rcases hp with hp | hp
      · rcases vacuumBlock_node pg hz hp k with ⟨hall, p', stats, h, -, hv⟩ | hout
        · exact Or.inl ⟨hall, p', stats, _, h, hv⟩
        · exact Or.inr hout
      · obtain ⟨h, hv⟩ := vacuumBlock_overflow pg hz hp k
        refine Or.inl ⟨fun a ha => ?_, p, _, _, h, hv⟩
        obtain ⟨o, v, hv', -⟩ := mem_deadAdjSlots.mp ha
        rw [hp.versionAt_eq_none] at hv'
        cases hv'
    rcases hblock with ⟨hall, p', stats, recs, h, hv⟩ | ⟨hout, h⟩
    · rw [vacuumBlocks_cons h]
      rcases vacuumBlocks_cases pg hz nodes (k + 1) hrest with ⟨hall', nodes', stats', recs', h', hv'⟩ | ⟨hout', h'⟩
      · refine Or.inl ⟨List.forall_mem_cons.mpr ⟨hall, hall'⟩, p' :: nodes', _, _, by rw [h']; rfl, .cons hv hv'⟩
      · obtain ⟨q, hq, hout'⟩ := hout'
        exact Or.inr ⟨⟨q, List.mem_cons_of_mem _ hq, hout'⟩, by rw [h']; rfl⟩
    · exact Or.inr ⟨⟨p, List.mem_cons_self, hout⟩, by simp only [vacuumBlocks, h]; rfl⟩

/-- Vacuum leaves blank blocks as they are and logs nothing for them. -/
theorem vacuumBlocks_blank (pg : PgSys) (hz : VacuumHorizon) :
    ∀ (rel : Relation) (k : Nat), (∀ p ∈ rel, p.Blank) → ∃ stats, vacuumBlocks pg hz (rel.zipIdx k) = .ok (rel, stats, [])
  | [], _, _ => ⟨⟨0, 0, 0, 0⟩, rfl⟩
  | p :: rel, k, h => by
    obtain ⟨hp, hrest⟩ := List.forall_mem_cons.mp h
    have hblock : ∃ stats, vacuumBlock pg hz p k = .ok (p, stats, []) := by
      rcases hp with rfl | hp
      · have hnone : deadOffsets hz true initNodePage = [] := rfl
        rcases vacuumBlock_node pg hz isNodePage_init k with ⟨-, p', stats, hv, hsame, -⟩ | ⟨⟨a, ha, -⟩, -⟩
        · rw [hnone, if_pos rfl, hsame hnone] at hv
          exact ⟨stats, hv⟩
        · cases ha
      · exact ⟨_, (vacuumBlock_overflow pg hz hp k).1⟩
    obtain ⟨stats, hv⟩ := hblock
    obtain ⟨stats', hv'⟩ := vacuumBlocks_blank pg hz rel (k + 1) hrest
    exact ⟨_, by rw [List.zipIdx_cons, vacuumBlocks_cons hv, hv']; rfl⟩

end PgEddy
