import Mathlib.Data.List.Basic

/-!
# Scans of paged stores

A store is a list of pages; the entries of a page are at offsets from 1. A scan reads block by block and offset by offset what
`read` makes of an entry, and keeps what is there. Here: what a scan finds, in terms of the single reads, and how a scan changes
when pages are added, when an entry is added on a page, and when entries are rewritten.
-/

namespace PagedStore

variable {π β γ : Type}

/-- The entries of one page that `read` finds, in order. -/
def scanPage (size : π → Nat) (read : π → Nat → Nat → Option β) (p : π) (b : Nat) : List β :=
  (List.range' 1 (size p)).filterMap (read p b)

/-- The entries of a store that `read` finds, block by block. -/
def scan (size : π → Nat) (read : π → Nat → Nat → Option β) (rel : List π) : List β :=
  rel.zipIdx.flatMap (fun pb => scanPage size read pb.1 pb.2)

/-- The first entry of a store that `read` finds. -/
def scanFirst (size : π → Nat) (read : π → Nat → Nat → Option β) (rel : List π) : Option β :=
  rel.zipIdx.findSome? (fun pb => (List.range' 1 (size pb.1)).findSome? (read pb.1 pb.2))

variable {size : π → Nat} {read read' : π → Nat → Nat → Option β} {rel : List π} {x : β}

/-! ## What a scan finds -/

theorem mem_scanPage {p : π} {b : Nat} :
    x ∈ scanPage size read p b ↔ ∃ o, 1 ≤ o ∧ o ≤ size p ∧ read p b o = some x := by
  simp only [scanPage, List.mem_filterMap, List.mem_range'_1]
  constructor
  · rintro ⟨o, ⟨h1, h2⟩, hr⟩
    exact ⟨o, h1, by omega, hr⟩
  · rintro ⟨o, h1, h2, hr⟩
    exact ⟨o, ⟨h1, by omega⟩, hr⟩

theorem mem_scan :
    x ∈ scan size read rel ↔ ∃ b p o, rel[b]? = some p ∧ 1 ≤ o ∧ o ≤ size p ∧ read p b o = some x := by
  simp only [scan, List.mem_flatMap, mem_scanPage]
  constructor
  · rintro ⟨⟨p, b⟩, hpb, o, ho⟩
    exact ⟨b, p, o, List.mem_zipIdx_iff_getElem?.mp hpb, ho⟩
  · rintro ⟨b, p, o, hp, ho⟩
    exact ⟨(p, b), List.mem_zipIdx_iff_getElem?.mpr hp, o, ho⟩

/-- The first entry found is the head of the scan. -/
theorem scanFirst_eq_head? : scanFirst size read rel = (scan size read rel).head? := by
  simp only [scanFirst, scan, scanPage, List.head?_flatMap, List.head?_filterMap]

theorem scanFirst_eq_none : scanFirst size read rel = none ↔
    ∀ b p o, rel[b]? = some p → 1 ≤ o → o ≤ size p → read p b o = none := by
  rw [scanFirst_eq_head?, List.head?_eq_none_iff, List.eq_nil_iff_forall_not_mem]
  constructor
  · intro h b p o hp h1 h2
    cases hr : read p b o with
    | none => rfl
    | some x => exact absurd (mem_scan.mpr ⟨b, p, o, hp, h1, h2, hr⟩) (h x)
  · intro h x hx
    obtain ⟨b, p, o, hp, h1, h2, hr⟩ := mem_scan.mp hx
    rw [h b p o hp h1 h2] at hr
    cases hr

/-- What the search returns is an entry of the store. -/
theorem of_scanFirst_eq_some (h : scanFirst size read rel = some x) :
    ∃ b p o, rel[b]? = some p ∧ 1 ≤ o ∧ o ≤ size p ∧ read p b o = some x := by
  rw [scanFirst_eq_head?] at h
  exact mem_scan.mp (List.mem_of_head? h)

/-- Where at most one value can be found, the search returns it as soon as an entry holds it. -/
theorem scanFirst_eq_some_of_unique
    (hu : ∀ b p o y, rel[b]? = some p → 1 ≤ o → o ≤ size p → read p b o = some y → y = x)
    {b : Nat} {p : π} {o : Nat} (hp : rel[b]? = some p) (h1 : 1 ≤ o) (h2 : o ≤ size p) (hr : read p b o = some x) :
    scanFirst size read rel = some x := by
  cases hs : scanFirst size read rel with
  | none =>
    rw [scanFirst_eq_none.mp hs b p o hp h1 h2] at hr
    cases hr
  | some y =>
    obtain ⟨b', p', o', hp', h1', h2', hr'⟩ := of_scanFirst_eq_some hs
    rw [hu b' p' o' y hp' h1' h2' hr']

/-- Reading on from what a reading finds is a scan of the scan. -/
theorem scan_bind (f : β → Option γ) :
    scan size (fun p b o => (read p b o).bind f) rel = (scan size read rel).filterMap f := by
  simp only [scan, scanPage, List.filterMap_flatMap, List.filterMap_filterMap]

/-- When an entry tells where it was read, a scan finds no place twice. -/
theorem scan_places_nodup (place : β → Nat × Nat) (hp : ∀ p b o x, read p b o = some x → place x = (b, o)) :
    ((scan size read rel).map place).Nodup := by
  rw [List.Nodup, List.pairwise_map, scan, List.pairwise_flatMap]
  constructor
  · rintro ⟨p, b⟩ -
    rw [scanPage, List.pairwise_filterMap]
    refine (List.pairwise_lt_range' 1).imp fun {o o'} hlt x hx y hy he => ?_
    rw [hp p b _ x hx, hp p b _ y hy] at he
    exact absurd (congrArg Prod.snd he) (Nat.ne_of_lt hlt)
  · have hz : rel.zipIdx.Pairwise (fun pb qc => pb.2 < qc.2) := by
      rw [← List.pairwise_map (f := Prod.snd) (R := (· < ·)), List.zipIdx_map_snd]
      exact List.pairwise_lt_range'
    refine hz.imp fun {pb qc} hlt x hx y hy he => ?_
    obtain ⟨o, -, -, hr⟩ := mem_scanPage.mp hx
    obtain ⟨o', -, -, hr'⟩ := mem_scanPage.mp hy
    rw [hp _ _ _ x hr, hp _ _ _ y hr'] at he
    exact absurd (congrArg Prod.fst he) (Nat.ne_of_lt hlt)

/-- Counting entry by entry gives the length of the scan. -/
theorem foldl_count_eq_length :
    rel.zipIdx.foldl (fun n pb => (List.range' 1 (size pb.1)).foldl
      (fun n o => if (read pb.1 pb.2 o).isSome then n + 1 else n) n) 0 = (scan size read rel).length := by
  have hpage : ∀ (p : π) (b : Nat) (l : List Nat) (n : Nat),
      l.foldl (fun n o => if (read p b o).isSome then n + 1 else n) n = n + (l.filterMap (read p b)).length := by
    intro p b l
    induction l with
    | nil => intro n; rfl
    | cons o l ih =>
      intro n
      rw [List.foldl_cons, ih]
      cases hr : read p b o with
      | none => simp [hr]
      | some x => simp [hr]; omega
  have hall : ∀ (l : List (π × Nat)) (n : Nat),
      l.foldl (fun n pb => (List.range' 1 (size pb.1)).foldl
        (fun n o => if (read pb.1 pb.2 o).isSome then n + 1 else n) n) n =
        n + (l.flatMap (fun pb => scanPage size read pb.1 pb.2)).length := by
    intro l
    induction l with
    | nil => intro n; rfl
    | cons pb l ih =>
      intro n
      rw [List.foldl_cons, ih, hpage, List.flatMap_cons, List.length_append, ← Nat.add_assoc]
      rfl
  rw [hall, Nat.zero_add]
  rfl

/-! ## Changes of the store -/

theorem scan_append (rel' : List π) :
    scan size read (rel ++ rel') =
      scan size read rel ++ (rel'.zipIdx rel.length).flatMap (fun pb => scanPage size read pb.1 pb.2) := by
  simp only [scan, List.zipIdx_append, List.flatMap_append, Nat.zero_add]

/-- A page added at the end is scanned last. -/
theorem scan_concat (p : π) : scan size read (rel ++ [p]) = scan size read rel ++ scanPage size read p rel.length := by
  simp [scan_append]

/-- Two stores whose scans agree page by page up to a change of the entries found. -/
theorem scan_map {rel' : List π} (f : β → γ) {size' : π → Nat} {read' : π → Nat → Nat → Option γ}
    (hlen : rel'.length = rel.length)
    (h : ∀ b p p', rel[b]? = some p → rel'[b]? = some p' →
      size' p' = size p ∧ ∀ o, 1 ≤ o → o ≤ size p → read' p' b o = (read p b o).map f) :
    scan size' read' rel' = (scan size read rel).map f := by
  have key : ∀ (l : List π) (l' : List π) (k : Nat), l'.length = l.length →
      (∀ b p p', l[b]? = some p → l'[b]? = some p' →
        size' p' = size p ∧ ∀ o, 1 ≤ o → o ≤ size p → read' p' (k + b) o = (read p (k + b) o).map f) →
      (l'.zipIdx k).flatMap (fun pb => scanPage size' read' pb.1 pb.2) =
        ((l.zipIdx k).flatMap (fun pb => scanPage size read pb.1 pb.2)).map f := by
    intro l
    induction l with
    | nil =>
      intro l' k hl _
      rw [List.eq_nil_of_length_eq_zero hl]
      rfl
    | cons p l ih =>
      intro l' k hl hr
      cases l' with
      | nil => cases hl
      | cons p' l' =>
        obtain ⟨hs, hp⟩ := hr 0 p p' rfl rfl
        have hpage : scanPage size' read' p' k = (scanPage size read p k).map f := by
          rw [scanPage, scanPage, hs, List.map_filterMap]
          refine List.filterMap_congr fun o ho => ?_
          obtain ⟨h1, h2⟩ := List.mem_range'_1.mp ho
          exact hp o h1 (by omega)
        have htail := ih l' (k + 1) (Nat.succ.inj hl) fun b q q' hq hq' => by
          rw [Nat.add_assoc, Nat.add_comm 1 b]
          exact hr (b + 1) q q' hq hq'
        rw [List.zipIdx_cons, List.zipIdx_cons, List.flatMap_cons, List.flatMap_cons, List.map_append, hpage, htail]
  have := key rel rel' 0 hlen fun b p p' hp hp' => by
    rw [Nat.zero_add]
    exact h b p p' hp hp'
  exact this

/-- A store in which the last page got one more entry. -/
theorem scan_push_last {p p' : π} (hs : size p' = size p + 1)
    (hr : ∀ o, 1 ≤ o → o ≤ size p → read p' rel.length o = read p rel.length o)
    (hx : read p' rel.length (size p + 1) = some x) :
    scan size read (rel ++ [p']) = scan size read (rel ++ [p]) ++ [x] := by
  have hpage : scanPage size read p' rel.length = scanPage size read p rel.length ++ [x] := by
    rw [scanPage, hs, List.range'_concat, List.filterMap_append, scanPage]
    have h1 : (List.range' 1 (size p)).filterMap (read p' rel.length) =
        (List.range' 1 (size p)).filterMap (read p rel.length) := by
      refine List.filterMap_congr fun o ho => ?_
      obtain ⟨h1, h2⟩ := List.mem_range'_1.mp ho
      exact hr o h1 (by omega)
    rw [h1, show 1 + 1 * size p = size p + 1 by omega]
    simp [hx]
  rw [scan_concat, scan_concat, hpage, List.append_assoc]

end PagedStore
