import PgEddy.Lemmas.Adjacency

/-!
# Edge chains

Every located node owns the header of its slot, and the two heads in the header start the chains of exactly the edges with the
node as source and with the node as target, newest first. `insert_edge` keeps this in the self-loop, same-page and two-page
cases alike; `delete_edge` leaves the item in its chains.
-/

namespace PgEddy

open LinkedChain

/-- The end of an edge by which it hangs in an out-chain or in an in-chain. -/
def EdgeItem.endpoint (e : EdgeItem) (isOutChain : Bool) : Int64 := if isOutChain then e.source else e.target

/-- The head of the out-chain or of the in-chain in a header. -/
def NodeAdjHeader.head (hdr : NodeAdjHeader) (isOutChain : Bool) : Nat × Nat :=
  if isOutChain then (hdr.outHeadPg, hdr.outHeadSl) else (hdr.inHeadPg, hdr.inHeadSl)

/-- The edges of a chain of a node, newest first. -/
def thread (edges : Relation) (isOutChain : Bool) (n : Int64) : List EdgeItem :=
  ((edgeItems edges).filter (fun e => e.endpoint isOutChain == n)).reverse

/-- The chains that start in a header are those of the node. -/
def Threads (edges : Relation) (n : Int64) (hdr : NodeAdjHeader) : Prop :=
  ∀ isOutChain, Chain (chainNext edges isOutChain) (link (hdr.head isOutChain))
    ((thread edges isOutChain n).map EdgeItem.loc)

/-- No two located nodes share a slot. -/
def DistinctSlots (nodes : Relation) : Prop :=
  ∀ n n' b o o' a, Located nodes n b o a → Located nodes n' b o' a → n = n'

/-- The chain invariant. -/
structure Linked (s : Store) : Prop extends Sound s where
  slots : DistinctSlots s.nodes
  threads : ∀ n b o a hdr, Located s.nodes n b o a → headerAt s.nodes (b, a) = some hdr → Threads s.edges n hdr

/-! ## Walking -/

theorem mem_thread {edges : Relation} {isOutChain : Bool} {n : Int64} {e : EdgeItem} :
    e ∈ thread edges isOutChain n ↔ e ∈ edgeItems edges ∧ e.endpoint isOutChain = n := by
  simp [thread]

theorem length_thread_le (edges : Relation) (isOutChain : Bool) (n : Int64) :
    (thread edges isOutChain n).length ≤ (edgeItems edges).length := by
  rw [thread, List.length_reverse]
  exact List.length_filter_le _ _

/-- The record a walk takes from an edge. -/
def EdgeItem.walked (relTypeFilter : Option Int32) (e : EdgeItem) : Option EdgeRecord :=
  if e.undeleted then e.record.filter (passesFilter relTypeFilter) else none

/-- The records of a chain of a node. -/
def walk (edges : Relation) (isOutChain : Bool) (n : Int64) (relTypeFilter : Option Int32) : List EdgeRecord :=
  (thread edges isOutChain n).filterMap (EdgeItem.walked relTypeFilter)

/-- The walk from a header of the node returns the undeleted edges of the chain that pass the filter, and ends. -/
theorem Threads.follow {edges : Relation} {n : Int64} {hdr : NodeAdjHeader} (h : Threads edges n hdr) (isOutChain : Bool)
    (relTypeFilter : Option Int32) {fuel : Nat} (hf : (edgeItems edges).length ≤ fuel) (out : List EdgeRecord) :
    followChain edges isOutChain relTypeFilter fuel (hdr.head isOutChain).1 (hdr.head isOutChain).2 out =
      some (.ok (out ++ walk edges isOutChain n relTypeFilter)) := by
  have hexists : ∀ a ∈ (thread edges isOutChain n).map EdgeItem.loc, (edgeAt edges a).isSome := by
    intro a ha
    obtain ⟨e, he, rfl⟩ := List.mem_map.mp ha
    rw [mem_edgeItems.mp (mem_thread.mp he).1]
    rfl
  rw [followChain_chain (by rw [List.length_map]; exact Nat.le_trans (length_thread_le ..) hf) (h isOutChain) hexists]
  refine congrArg (fun l => some (Except.ok (out ++ l))) ?_
  rw [walk, List.filterMap_map]
  refine List.filterMap_congr fun e he => ?_
  simp only [Function.comp_apply, chainRecord, mem_edgeItems.mp (mem_thread.mp he).1, Option.bind_some]
  rfl

/-- What `adjacency_follow` returns for a direction. -/
def followed (edges : Relation) (n : Int64) (relTypeFilter : Option Int32) : Direction → List EdgeRecord
  | .out => walk edges true n relTypeFilter
  | .in => walk edges false n relTypeFilter
  | .both => retainFirst (walk edges true n relTypeFilter ++ walk edges false n relTypeFilter) []

theorem Threads.followHeader {edges : Relation} {n : Int64} {hdr : NodeAdjHeader} (h : Threads edges n hdr)
    (direction : Direction) (relTypeFilter : Option Int32) {fuel : Nat} (hf : (edgeItems edges).length ≤ fuel) :
    followHeader edges hdr direction relTypeFilter fuel = some (.ok (followed edges n relTypeFilter direction)) := by
  have hout := h.follow true relTypeFilter hf []
  have hin := fun out => h.follow false relTypeFilter hf out
  simp only [NodeAdjHeader.head, if_true, Bool.false_eq_true, if_false, List.nil_append] at hout hin
  cases direction <;> simp [PgEddy.followHeader, hout, hin, followed, Except.map]

/-- The chain invariant gives what `adjacency_follow` returns for a located node whose slot is in the special area. -/
theorem Linked.adjacencyFollow {s : Store} (h : Linked s) {n : Int64} {b o a : Nat} {hdr : NodeAdjHeader}
    (hl : Located s.nodes n b o a) (hh : headerAt s.nodes (b, a) = some hdr) {cache : LocationCache}
    (hc : ∀ blk off, cache n = some (blk, off) → blk < s.nodes.length) (direction : Direction)
    (relTypeFilter : Option Int32) {fuel : Nat} (hf : (edgeItems s.edges).length ≤ fuel) :
    adjacencyFollow cache s.nodes s.edges n direction relTypeFilter fuel =
      some (.ok (followed s.edges n relTypeFilter direction)) := by
  have hfind : findNodeLocation cache s.nodes n = .ok (some (b, o, a)) := by
    rw [findNodeLocation_eq h.nodePages h.unique, scanNodeLocation_of_located h.nodePages h.unique hl]
    cases hcn : cache n with
    | none => rfl
    | some bo => simp only [hc bo.1 bo.2 hcn, if_true]
  rw [adjacencyFollow_eq h.nodePages, hfind]
  simp only [hh]
  exact (h.threads n b o a hdr hl hh).followHeader direction relTypeFilter hf

/-! ## A new edge -/

/-- Both heads of both endpoints after `insert_edge`. -/
theorem headerAt_pushHeads {nodes : Relation} {sb sa tb ta : Nat} {srcAdj tgtAdj : NodeAdjHeader}
    (hs : headerAt nodes (sb, sa) = some srcAdj) (ht : headerAt nodes (tb, ta) = some tgtAdj) (loc' : Nat × Nat)
    (loc : Nat × Nat) :
    headerAt (pushHeads nodes sb sa tb ta srcAdj tgtAdj loc') loc =
      if loc = (tb, ta) then
        some ((if sb = tb ∧ sa = ta then srcAdj.pushOut loc'.1 loc'.2 else tgtAdj).pushIn loc'.1 loc'.2)
      else if loc = (sb, sa) then some (srcAdj.pushOut loc'.1 loc'.2) else headerAt nodes loc := by
  have h1 := headerAt_writeAdjHeaderAt (srcAdj.pushOut loc'.1 loc'.2) hs
  have ht' : ∃ hdr, headerAt (writeAdjHeaderAt nodes sb sa (srcAdj.pushOut loc'.1 loc'.2)) (tb, ta) = some hdr := by
    rw [h1]
    split
    · exact ⟨_, rfl⟩
    · exact ⟨_, ht⟩
  obtain ⟨hdr, ht'⟩ := ht'
  rw [pushHeads, headerAt_writeAdjHeaderAt _ ht', h1]

/-- A head of a header names an item. -/
theorem Threads.head_isSome {edges : Relation} {n : Int64} {hdr : NodeAdjHeader} (h : Threads edges n hdr) (isOutChain : Bool)
    {a : Nat × Nat} (ha : link (hdr.head isOutChain) = some a) : (edgeAt edges a).isSome := by
  have hc := h isOutChain
  rw [ha] at hc
  obtain ⟨t, ht, -⟩ := chain_some_iff.mp hc
  obtain ⟨e, he, rfl⟩ := List.mem_map.mp (ht ▸ List.mem_cons_self : a ∈ (thread edges isOutChain n).map EdgeItem.loc)
  rw [mem_edgeItems.mp (mem_thread.mp he).1]
  rfl

/-- A head that names an item of the relation, or none, is read back whole from a next pointer. -/
theorem link_truncated {edges : Relation} (hp : EdgePages edges) {h : Nat × Nat}
    (hl : ∀ a, link h = some a → (edgeAt edges a).isSome) : link (h.1 % 4294967296, h.2 % 65536) = link h := by
  by_cases h0 : h.2 = 0
  · simp only [link, h0, Nat.zero_mod, if_true]
  · obtain ⟨e, he⟩ := Option.isSome_iff_exists.mp (hl h (by rw [link, if_neg h0]))
    have hlt := hp.loc_lt he
    rw [Nat.mod_eq_of_lt hlt.1, Nat.mod_eq_of_lt hlt.2.2]

/-- The chains of a node after an item was added: an old chain stays, and the item is at the head of its own two. -/
theorem Threads.append {edges edges' : Relation} {n : Int64} {hdr hdr' : NodeAdjHeader} {e : EdgeItem}
    (h : Threads edges n hdr) (hitems : edgeItems edges' = edgeItems edges ++ [e])
    (hhead : ∀ isOutChain, hdr'.head isOutChain = if e.endpoint isOutChain = n then e.loc else hdr.head isOutChain)
    (hloc : link e.loc = some e.loc)
    (hnext : ∀ isOutChain, e.endpoint isOutChain = n → link (nextOf e.data isOutChain) = link (hdr.head isOutChain)) :
    Threads edges' n hdr' := by
  intro isOutChain
  have hold : ∀ d ∈ edgeItems edges, edgeAt edges' d.loc = edgeAt edges d.loc := by
    intro d hd
    rw [mem_edgeItems.mp hd, mem_edgeItems.mp (hitems ▸ List.mem_append_left _ hd)]
  have hframe : ∀ a ∈ (thread edges isOutChain n).map EdgeItem.loc,
      chainNext edges' isOutChain a = chainNext edges isOutChain a := by
    intro a ha
    obtain ⟨d, hd, rfl⟩ := List.mem_map.mp ha
    rw [chainNext, chainNext, hold d (mem_thread.mp hd).1]
  have hnew : edgeAt edges' e.loc = some e := mem_edgeItems.mp (by rw [hitems]; simp)
  by_cases hend : e.endpoint isOutChain = n
  · have hthread : thread edges' isOutChain n = e :: thread edges isOutChain n := by
      simp [thread, hitems, hend]
    rw [hthread, hhead, if_pos hend, hloc]
    refine (h isOutChain).push ?_ hframe
    rw [chainNext, hnew, Option.bind_some, hnext isOutChain hend]
  · have hthread : thread edges' isOutChain n = thread edges isOutChain n := by
      simp [thread, hitems, hend]
    rw [hthread, hhead, if_neg hend]
    exact (h isOutChain).frame hframe

/-- The chains of a node after a change of items that keeps where they are, where they point and whose they are. -/
theorem Threads.map {edges edges' : Relation} {n : Int64} {hdr : NodeAdjHeader} (h : Threads edges n hdr)
    (f : EdgeItem → EdgeItem) (hitems : edgeItems edges' = (edgeItems edges).map f) (hloc : ∀ e, (f e).loc = e.loc)
    (hend : ∀ e isOutChain, (f e).endpoint isOutChain = e.endpoint isOutChain)
    (hnext : ∀ e isOutChain, nextOf (f e).data isOutChain = nextOf e.data isOutChain) : Threads edges' n hdr := by
  intro isOutChain
  have hthread : (thread edges' isOutChain n).map EdgeItem.loc = (thread edges isOutChain n).map EdgeItem.loc := by
    simp only [thread, hitems, List.filter_map, List.map_reverse, List.map_map, Function.comp_def, hloc, hend]
  rw [hthread]
  refine (h isOutChain).frame fun a ha => ?_
  obtain ⟨d, hd, rfl⟩ := List.mem_map.mp ha
  have hd' := (mem_thread.mp hd).1
  have hfd : edgeAt edges' d.loc = some (f d) := by
    rw [← hloc d]
    exact mem_edgeItems.mp (hitems ▸ List.mem_map_of_mem hd')
  rw [chainNext, chainNext, hfd, mem_edgeItems.mp hd', Option.bind_some, Option.bind_some, hnext]

/-! ## The steps -/

theorem Located.congr {nodes nodes' : Relation} (he : ∀ loc, versionAt nodes' loc = versionAt nodes loc) {n : Int64}
    {b o a : Nat} : Located nodes' n b o a ↔ Located nodes n b o a := by
  simp only [Located, he]

/-- The items of the edge relation keep the shape when an edge is inserted. -/
theorem Linked.linked {s t : Store} (h : Linked s) (hsound : Sound t) {xid : Xid} {edgeId : Int64} {relTypeId : Int32}
    {src tgt : Int64} {propBytes : Bytes} {sb sOff sa tb tOff ta : Nat} {srcAdj tgtAdj : NodeAdjHeader} {loc : Nat × Nat}
    (hsl : Located s.nodes src sb sOff sa) (htl : Located s.nodes tgt tb tOff ta)
    (hs : headerAt s.nodes (sb, sa) = some srcAdj) (ht : headerAt s.nodes (tb, ta) = some tgtAdj)
    (hnodes : t.nodes = pushHeads s.nodes sb sa tb ta srcAdj tgtAdj loc)
    (hitems : edgeItems t.edges = edgeItems s.edges ++ [newEdge xid edgeId relTypeId src tgt srcAdj tgtAdj propBytes loc]) :
    Linked t := by
  have hvers : ∀ l, versionAt t.nodes l = versionAt s.nodes l := fun l => by rw [hnodes, versionAt_pushHeads]
  have hloc : link loc = some loc := by
    have hmem : newEdge xid edgeId relTypeId src tgt srcAdj tgtAdj propBytes loc ∈ edgeItems t.edges := by
      rw [hitems]; simp
    have := hsound.edgePages.loc_lt (mem_edgeItems.mp hmem)
    rw [loc_newEdge] at this
    rw [link, if_neg (by omega)]
  refine ⟨hsound, fun n n' b o o' a hn hn' => ?_, fun n b o a hdr' hn hh => ?_⟩
  · exact h.slots n n' b o o' a ((Located.congr hvers).mp hn) ((Located.congr hvers).mp hn')
  have hn := (Located.congr hvers).mp hn
  have hsrc : (b, a) = (sb, sa) ↔ src = n := by
    constructor
    · intro he
      cases he
      exact h.slots src n sb sOff o sa hsl hn
    · intro he
      obtain ⟨hb, -, ha⟩ := h.unique.located hn (he ▸ hsl)
      rw [hb, ha]
  have htgt : (b, a) = (tb, ta) ↔ tgt = n := by
    constructor
    · intro he
      cases he
      exact h.slots tgt n tb tOff o ta htl hn
    · intro he
      obtain ⟨hb, -, ha⟩ := h.unique.located hn (he ▸ htl)
      rw [hb, ha]
  -- the header of the slot before the step, and its heads afterwards
  have hold : ∃ hdr, headerAt s.nodes (b, a) = some hdr ∧ (src = n → hdr = srcAdj) ∧ (tgt = n → hdr = tgtAdj) ∧
      (hdr'.head true = if src = n then loc else hdr.head true) ∧
      (hdr'.head false = if tgt = n then loc else hdr.head false) := by
    rw [hnodes, headerAt_pushHeads hs ht] at hh
    simp only [htgt, hsrc] at hh
    by_cases hct : tgt = n
    · have hba := htgt.mpr hct
      have hbt : headerAt s.nodes (b, a) = some tgtAdj := by rw [hba, ht]
      rw [if_pos hct] at hh
      by_cases hcs : src = n
      · have hss : sb = tb ∧ sa = ta := by
          have := (hsrc.mpr hcs).symm.trans hba
          exact ⟨congrArg Prod.fst this, congrArg Prod.snd this⟩
        have heq : srcAdj = tgtAdj := by
          rw [← hsrc.mpr hcs, hbt] at hs
          exact (Option.some.inj hs).symm
        rw [if_pos hss] at hh
        cases hh
        exact ⟨tgtAdj, hbt, fun _ => heq.symm, fun _ => rfl, by rw [if_pos hcs]; rfl, by rw [if_pos hct]; rfl⟩
      · have hss : ¬(sb = tb ∧ sa = ta) := fun hss => hcs (hsrc.mp (by rw [hba, hss.1, hss.2]))
        rw [if_neg hss] at hh
        cases hh
        exact ⟨tgtAdj, hbt, fun hc => absurd hc hcs, fun _ => rfl, by rw [if_neg hcs]; rfl, by rw [if_pos hct]; rfl⟩
    · rw [if_neg hct] at hh
      by_cases hcs : src = n
      · rw [if_pos hcs] at hh
        cases hh
        exact ⟨srcAdj, by rw [hsrc.mpr hcs, hs], fun _ => rfl, fun hc => absurd hc hct, by rw [if_pos hcs]; rfl,
          by rw [if_neg hct]; rfl⟩
      · rw [if_neg hcs] at hh
        exact ⟨hdr', hh, fun hc => absurd hc hcs, fun hc => absurd hc hct, by rw [if_neg hcs], by rw [if_neg hct]⟩
  obtain ⟨hdr, hb, hes, het, hout, hin⟩ := hold
  have hth := h.threads n b o a hdr hn hb
  have htrunc := fun isOutChain => link_truncated h.edgePages fun a ha => hth.head_isSome isOutChain ha
  refine hth.append hitems (fun isOutChain => ?_) hloc (fun isOutChain hend => ?_)
  · cases isOutChain
    · simpa [EdgeItem.endpoint] using hin
    · simpa [EdgeItem.endpoint] using hout
  · have hnext := nextOf_edgeData edgeId relTypeId src tgt srcAdj.outHeadPg srcAdj.outHeadSl tgtAdj.inHeadPg
      tgtAdj.inHeadSl propBytes isOutChain
    cases isOutChain
    · have heq : hdr = tgtAdj := het (by simpa [EdgeItem.endpoint] using hend)
      rw [newEdge, hnext, ← htrunc false, heq]
      rfl
    · have heq : hdr = srcAdj := hes (by simpa [EdgeItem.endpoint] using hend)
      rw [newEdge, hnext, ← htrunc true, heq]
      rfl

theorem edgeMark_map {e : EdgeItem} {xid : Xid} (d : EdgeItem) :
    (if d.loc = e.loc then d.setXmax xid else d).loc = d.loc ∧
      (∀ isOutChain, (if d.loc = e.loc then d.setXmax xid else d).endpoint isOutChain = d.endpoint isOutChain) ∧
      (if d.loc = e.loc then d.setXmax xid else d).data = d.data := by
  split <;> exact ⟨rfl, fun _ => rfl, rfl⟩

/-- Deleting an edge leaves all chains as they are. -/
theorem Linked.edgeMarked {s t : Store} (h : Linked s) (hsound : Sound t) {e : EdgeItem} {xid : Xid}
    (he : e ∈ edgeItems s.edges) (hnodes : t.nodes = s.nodes) (hedges : t.edges = setXmaxAt s.edges e.loc.1 e.loc.2 xid) :
    Linked t := by
  refine ⟨hsound, hnodes ▸ h.slots, fun n b o a hdr hn hh => ?_⟩
  rw [hnodes] at hn hh
  refine (h.threads n b o a hdr hn hh).map (fun d => if d.loc = e.loc then d.setXmax xid else d)
    (hedges ▸ edgeItems_setXmaxAt he xid) (fun d => (edgeMark_map d).1) (fun d => (edgeMark_map d).2.1) fun d _ => ?_
  rw [(edgeMark_map d).2.2]

end PgEddy
