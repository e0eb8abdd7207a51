import PgEddy.Lib.Fallible

/-!
# Filtering with remembered answers

A list of items is worked through. Each item asks a question about its key, and with a positive answer gives some results.
The answer to the first question about a key is remembered and used for every later item of that key. Answers may differ from
item to item, so the remembered ones may not be what an item would be answered.
-/

namespace Memo

open Fallible

variable {η κ β ρ φ : Type} [DecidableEq κ] (key : η → κ) (ask : η → Except φ (Option β)) (use : η → β → Except φ (List ρ))

/-- The answer for an item, remembered or new, and what is remembered after it. -/
def remembered (h : η) (cache : List (κ × Option β)) : Except φ (Option β × List (κ × Option β)) :=
  match cache.lookup (key h) with
  | some answer => .ok (answer, cache)
  | none => do
    let answer ← ask h
    return (answer, (key h, answer) :: cache)

/-- What an item gives with an answer. -/
def results (h : η) : Option β → Except φ (List ρ)
  | none => .ok []
  | some b => use h b

/-- The results of a list of items, and what is remembered after them. -/
def run : List η → List (κ × Option β) → Except φ (List ρ × List (κ × Option β))
  | [], cache => .ok ([], cache)
  | h :: hs, cache => do
    let (answer, cache) ← remembered key ask h cache
    let out ← results use h answer
    let (outs, cache) ← run hs cache
    return (out ++ outs, cache)

/-- The results of a list of items with given answers. -/
def runWith (answers : κ → Option (Option β)) : List η → Except φ (List ρ)
  | [] => .ok []
  | h :: hs => do
    let out ← results use h ((answers (key h)).getD none)
    return out ++ (← runWith answers hs)

/-- The first item of a key. -/
def firstOf (hs : List η) (k : κ) : Option η := hs.find? fun h => key h = k

variable {key ask use}

theorem firstOf_key {hs : List η} {k : κ} {h : η} (hf : firstOf key hs k = some h) : key h = k := by
  simpa using List.find?_some hf

/-! ## What is remembered -/

theorem remembered_eq_ok {h : η} {cache cache' : List (κ × Option β)} {answer : Option β}
    (hr : remembered key ask h cache = .ok (answer, cache')) :
    cache'.lookup (key h) = some answer ∧ (∀ k a, cache.lookup k = some a → cache'.lookup k = some a) ∧
      (∀ k, k ≠ key h → cache'.lookup k = cache.lookup k) ∧ (cache.lookup (key h) = none → ask h = .ok answer) := by
  unfold remembered at hr
  cases hc : cache.lookup (key h) with
  | some a =>
    rw [hc] at hr
    cases hr
    exact ⟨hc, fun _ _ hk => hk, fun _ _ => rfl, nofun⟩
  | none =>
    rw [hc] at hr
    obtain ⟨a, ha, hr⟩ := bind_eq_ok.mp hr
    cases hr
    refine ⟨List.lookup_cons_self, fun k a' hk => ?_, fun k hk => ?_, fun _ => ha⟩
    · rw [List.lookup_cons]
      split
      · rename_i heq
        rw [eq_of_beq heq, hc] at hk
        cases hk
      · exact hk
    · rw [List.lookup_cons, beq_false_of_ne hk]

theorem run_cons {h : η} {hs : List η} {cache cache' : List (κ × Option β)} {answer : Option β}
    (hr : remembered key ask h cache = .ok (answer, cache')) :
    run key ask use (h :: hs) cache = (do
      let out ← results use h answer
      let (outs, cache) ← run key ask use hs cache'
      return (out ++ outs, cache)) := by
  rw [run, hr]
  rfl

/-- The first item, and then the others with what it has left. -/
theorem run_cons_step (h : η) (hs : List η) (cache : List (κ × Option β)) :
    run key ask use (h :: hs) cache = (do
      let first ← (do
        let (answer, cache) ← remembered key ask h cache
        let out ← results use h answer
        return (out, cache) : Except φ (List ρ × List (κ × Option β)))
      let (outs, cache) ← run key ask use hs first.2
      return (first.1 ++ outs, cache)) := by
  rw [run]
  cases remembered key ask h cache with
  | error e => rfl
  | ok r =>
    simp only [ok_bind]
    cases results use h r.1 <;> rfl

/-- What is remembered stays. -/
theorem run_keeps {hs : List η} {cache cache' : List (κ × Option β)} {outs : List ρ}
    (hr : run key ask use hs cache = .ok (outs, cache')) {k : κ} {a : Option β} (hk : cache.lookup k = some a) :
    cache'.lookup k = some a := by
  induction hs generalizing cache outs with
  | nil => cases hr; exact hk
  | cons h hs ih =>
    obtain ⟨⟨answer, cache₁⟩, hanswer, hr⟩ := bind_eq_ok.mp hr
    obtain ⟨out, -, hr⟩ := bind_eq_ok.mp hr
    obtain ⟨⟨outs', cache₂⟩, hrest, hr⟩ := bind_eq_ok.mp hr
    cases hr
    exact ih hrest ((remembered_eq_ok hanswer).2.1 k a hk)

/-- The answer that is remembered for a new key is that of its first item. -/
theorem run_lookup {hs : List η} {cache cache' : List (κ × Option β)} {outs : List ρ}
    (hr : run key ask use hs cache = .ok (outs, cache')) {k : κ} (hk : cache.lookup k = none) :
    (∀ h, firstOf key hs k = some h → ∃ a, ask h = .ok a ∧ cache'.lookup k = some a) ∧
      (firstOf key hs k = none → cache'.lookup k = none) := by
  induction hs generalizing cache outs with
  | nil =>
    cases hr
    exact ⟨nofun, fun _ => hk⟩
  | cons h hs ih =>
    obtain ⟨⟨answer, cache₁⟩, hanswer, hr⟩ := bind_eq_ok.mp hr
    obtain ⟨out, -, hr⟩ := bind_eq_ok.mp hr
    obtain ⟨⟨outs', cache₂⟩, hrest, hr⟩ := bind_eq_ok.mp hr
    cases hr
    obtain ⟨hself, -, hother, hask⟩ := remembered_eq_ok hanswer
    unfold firstOf
    by_cases hkey : key h = k
    · subst hkey
      rw [List.find?_cons_of_pos (by simp)]
      refine ⟨fun h' hh => ?_, nofun⟩
      cases hh
      exact ⟨answer, hask hk, run_keeps hrest hself⟩
    · rw [List.find?_cons_of_neg (by simpa using hkey)]
      exact ih hrest ((hother k (Ne.symm hkey)).trans hk)

/-- Every answer that is remembered was given to an item of its key. -/
theorem run_answer {hs : List η} {cache : List (κ × Option β)} {outs : List ρ}
    (hr : run key ask use hs [] = .ok (outs, cache)) {k : κ} {a : Option β} (hk : cache.lookup k = some a) :
    ∃ h, key h = k ∧ ask h = .ok a := by
  obtain ⟨hsome, hnone⟩ := run_lookup hr (k := k) rfl
  cases hf : firstOf key hs k with
  | none => cases hk.symm.trans (hnone hf)
  | some h =>
    obtain ⟨a', ha', hlookup⟩ := hsome h hf
    cases hk.symm.trans hlookup
    exact ⟨h, firstOf_key hf, ha'⟩

/-! ## The answers that a run uses -/

/-- A run that starts with more answers uses them, and otherwise those of the other run. -/
theorem run_overlay {hs : List η} {known cache₀ cache cache₀' : List (κ × Option β)} {outs : List ρ}
    (hr : run key ask use hs cache₀ = .ok (outs, cache₀'))
    (hc : ∀ k, cache.lookup k = (known.lookup k).or (cache₀.lookup k)) :
    Prod.fst <$> run key ask use hs cache = runWith key use (fun k => (known.lookup k).or (cache₀'.lookup k)) hs := by
  induction hs generalizing cache₀ cache outs with
  | nil => rfl
  | cons h hs ih =>
    obtain ⟨⟨answer, cache₁⟩, hanswer, hr⟩ := bind_eq_ok.mp hr
    obtain ⟨out, hout, hr⟩ := bind_eq_ok.mp hr
    obtain ⟨⟨outs', cache₂⟩, hrest, hr⟩ := bind_eq_ok.mp hr
    cases hr
    obtain ⟨hself, -, hother, hask⟩ := remembered_eq_ok hanswer
    have hlast := run_keeps hrest hself
    have hmine : ∃ cache₃, remembered key ask h cache = .ok ((known.lookup (key h)).getD answer, cache₃) ∧
        ∀ k, cache₃.lookup k = (known.lookup k).or (cache₁.lookup k) := by
      cases hknown : known.lookup (key h) with
      | some a =>
        have hin : cache.lookup (key h) = some a := by rw [hc, hknown, Option.some_or]
        refine ⟨cache, by rw [remembered, hin]; rfl, fun k => ?_⟩
        rw [hc]
        by_cases hk : k = key h
        · subst hk
          rw [hknown, Option.some_or, Option.some_or]
        · rw [hother k hk]
      | none =>
        have hsame : cache.lookup (key h) = cache₀.lookup (key h) := by rw [hc, hknown, Option.none_or]
        have hanswer' := hanswer
        unfold remembered at hanswer' ⊢
        cases hold : cache₀.lookup (key h) with
        | some a =>
          rw [hold] at hanswer'
          cases hanswer'
          exact ⟨cache, by rw [hsame, hold]; rfl, hc⟩
        | none =>
          refine ⟨(key h, answer) :: cache, by rw [hsame, hold, hask hold]; rfl, fun k => ?_⟩
          rw [List.lookup_cons]
          split
          · rename_i heq
            rw [eq_of_beq heq, hknown, Option.none_or, hself]
          · rename_i hne
            rw [hc, hother k (by simpa using hne)]
    obtain ⟨cache₃, hanswer₃, hcache₃⟩ := hmine
    have hanswer : (((known.lookup (key h)).or (cache₀'.lookup (key h))).getD none) = (known.lookup (key h)).getD answer := by
      rw [hlast]
      cases known.lookup (key h) <;> rfl
    rw [run_cons hanswer₃, runWith, hanswer, ← ih hrest hcache₃]
    cases results use h ((known.lookup (key h)).getD answer) with
    | error e => rfl
    | ok o => cases run key ask use hs cache₃ <;> rfl

/-- More items after those of a run go on with what it remembers. -/
theorem run_append {hs : List η} (hs' : List η) {cache cache' : List (κ × Option β)} {outs : List ρ}
    (hr : run key ask use hs cache = .ok (outs, cache')) :
    run key ask use (hs ++ hs') cache = (fun r => (outs ++ r.1, r.2)) <$> run key ask use hs' cache' := by
  induction hs generalizing cache outs with
  | nil =>
    cases hr
    rw [List.nil_append]
    cases run key ask use hs' cache' <;> simp
  | cons h hs ih =>
    obtain ⟨⟨answer, cache₁⟩, hanswer, hr⟩ := bind_eq_ok.mp hr
    obtain ⟨out, hout, hr⟩ := bind_eq_ok.mp hr
    obtain ⟨⟨outs', cache₂⟩, hrest, hr⟩ := bind_eq_ok.mp hr
    cases hr
    rw [List.cons_append, run_cons hanswer, hout, ok_bind, ih hrest]
    cases run key ask use hs' cache' with
    | error e => rfl
    | ok r => exact congrArg Except.ok (Prod.ext (List.append_assoc _ _ _).symm rfl)

theorem run_append_error {hs : List η} (hs' : List η) {cache : List (κ × Option β)} {e : φ}
    (hr : run key ask use hs cache = .error e) : run key ask use (hs ++ hs') cache = .error e := by
  induction hs generalizing cache with
  | nil => cases hr
  | cons h hs ih =>
    cases hanswer : remembered key ask h cache with
    | error e' =>
      rw [run, hanswer] at hr
      rw [List.cons_append, run, hanswer]
      exact hr
    | ok r =>
      rw [run_cons hanswer] at hr
      rw [List.cons_append, run_cons hanswer]
      cases hres : results use h r.1 with
      | error e' =>
        rw [hres] at hr
        exact hr
      | ok o =>
        rw [hres, ok_bind] at hr
        rw [ok_bind]
        cases hrest : run key ask use hs r.2 with
        | error e' =>
          rw [hrest] at hr
          cases hr
          rw [ih hrest]
          rfl
        | ok r' =>
          rw [hrest] at hr
          cases hr

/-! ## When one run is two -/

omit [DecidableEq κ] in
/-- Answers that only differ where no results come of them give the same results. -/
theorem runWith_congr {hs : List η} {answers answers' : κ → Option (Option β)}
    (h : ∀ i ∈ hs, results use i ((answers (key i)).getD none) = results use i ((answers' (key i)).getD none)) :
    runWith key use answers hs = runWith key use answers' hs := by
  induction hs with
  | nil => rfl
  | cons i hs ih =>
    obtain ⟨hi, hrest⟩ := List.forall_mem_cons.mp h
    rw [runWith, runWith, hi, ih hrest]

omit [DecidableEq κ] in
/-- Items without results have none together. -/
theorem runWith_eq_nil {hs : List η} {answers : κ → Option (Option β)}
    (h : ∀ i ∈ hs, results use i ((answers (key i)).getD none) = .ok []) : runWith key use answers hs = .ok [] := by
  induction hs with
  | nil => rfl
  | cons i hs ih =>
    obtain ⟨hi, hrest⟩ := List.forall_mem_cons.mp h
    rw [runWith, hi, ok_bind, ih hrest]
    rfl

/-- Results that show the key of their item: those with one key are the results of the items of that key. -/
theorem runWith_filter {hs : List η} {answers : κ → Option (Option β)} {outs : List ρ} {tag : ρ → Option κ}
    (htag : ∀ i b o, answers (key i) = some (some b) → use i b = .ok o → ∀ r ∈ o, tag r = some (key i))
    (h : runWith key use answers hs = .ok outs) (k : κ) :
    runWith key use answers (hs.filter fun i => key i = k) = .ok (outs.filter fun r => tag r = some k) := by
  have hresults : ∀ {i : η} {o : List ρ}, results use i ((answers (key i)).getD none) = .ok o →
      ∀ r ∈ o, tag r = some (key i) := by
    intro i o ho r hr
    cases ha : answers (key i) with
    | none => rw [ha] at ho; cases ho; cases hr
    | some a =>
      rw [ha] at ho
      cases a with
      | none => cases ho; cases hr
      | some b => exact htag i b o ha ho r hr
  induction hs generalizing outs with
  | nil => cases h; rfl
  | cons i hs ih =>
    obtain ⟨o, ho, h⟩ := bind_eq_ok.mp h
    obtain ⟨os, hos, h⟩ := bind_eq_ok.mp h
    cases h
    rw [List.filter_append, List.filter_cons]
    by_cases hkey : key i = k
    · have hall : o.filter (fun r => tag r = some k) = o :=
        List.filter_eq_self.mpr fun r hr => by simp [hresults ho r hr, hkey]
      rw [if_pos (by simpa using hkey), runWith, ho, ok_bind, ih hos, hall]
      rfl
    · have hnone : o.filter (fun r => tag r = some k) = [] :=
        List.filter_eq_nil_iff.mpr fun r hr => by simp [hresults ho r hr, hkey]
      rw [if_neg (by simpa using hkey), hnone, List.nil_append]
      exact ih hos

omit [DecidableEq κ] in
/-- Without results in the whole, no item has any. -/
theorem runWith_nil {hs : List η} {answers : κ → Option (Option β)} (h : runWith key use answers hs = .ok []) {i : η}
    (hi : i ∈ hs) : results use i ((answers (key i)).getD none) = .ok [] := by
  induction hs with
  | nil => cases hi
  | cons j hs ih =>
    obtain ⟨o, ho, h⟩ := bind_eq_ok.mp h
    obtain ⟨os, hos, h⟩ := bind_eq_ok.mp h
    obtain ⟨rfl, rfl⟩ := List.append_eq_nil_iff.mp (Except.ok.inj h)
    rcases List.mem_cons.mp hi with rfl | hi
    · exact ho
    · exact ih hos hi

/-- Two lists of items give together what they give one by one if and only if, where the first items of a key in either list
are answered differently, no item of that key in the second list has results. A positive answer is the same for all items of a
key, and results show the key of their item. -/
theorem run_append_iff {hs hs' : List η} {outs outs' : List ρ} {cache cache' : List (κ × Option β)} (tag : ρ → Option κ)
    (htag : ∀ i j b o, key i = key j → ask j = .ok (some b) → use i b = .ok o → ∀ r ∈ o, tag r = some (key i))
    (hsame : ∀ i j b c, key i = key j → ask i = .ok (some b) → ask j = .ok (some c) → b = c)
    (hr : run key ask use hs [] = .ok (outs, cache)) (hr' : run key ask use hs' [] = .ok (outs', cache')) :
    Prod.fst <$> run key ask use (hs ++ hs') [] = .ok (outs ++ outs') ↔
      ∀ k i j, firstOf key hs k = some i → firstOf key hs' k = some j → ask i ≠ ask j →
        ∀ b, ask i = .ok (some b) ∨ ask j = .ok (some b) → ∀ h ∈ hs', key h = k → use h b = .ok [] := by
  have hown : runWith key use (cache'.lookup ·) hs' = .ok outs' := by
    have : Prod.fst <$> run key ask use hs' [] =
        runWith key use (fun k => (([] : List (κ × Option β)).lookup k).or (cache'.lookup k)) hs' :=
      run_overlay hr' fun k => rfl
    rw [hr'] at this
    exact this.symm
  have hjoint : Prod.fst <$> run key ask use hs' cache =
      runWith key use (fun k => (cache.lookup k).or (cache'.lookup k)) hs' :=
    run_overlay hr' fun k => (Option.or_none).symm
  have hwhole : Prod.fst <$> run key ask use (hs ++ hs') [] = .ok (outs ++ outs') ↔
      runWith key use (fun k => (cache.lookup k).or (cache'.lookup k)) hs' = .ok outs' := by
    rw [run_append hs' hr, ← hjoint]
    cases run key ask use hs' cache with
    | error e => simp
    | ok r => simp
  have hfirst : ∀ h ∈ hs', ∃ j a, firstOf key hs' (key h) = some j ∧ ask j = .ok a ∧ cache'.lookup (key h) = some a := by
    intro h hh
    cases hj : firstOf key hs' (key h) with
    | none => exact absurd (by simp) (List.find?_eq_none.mp hj h hh)
    | some j =>
      obtain ⟨a, ha, hlookup⟩ := (run_lookup hr' rfl).1 j hj
      exact ⟨j, a, rfl, ha, hlookup⟩
  rw [hwhole]
  constructor
  · intro hboth k i j hi hj hne b hb h hh hk
    subst hk
    obtain ⟨a, ha, hlookup⟩ := (run_lookup hr rfl).1 i hi
    obtain ⟨a', ha', hlookup'⟩ := (run_lookup hr' rfl).1 j hj
    have hkeys : key i = key j := by
      rw [firstOf_key hi, firstOf_key hj]
    have hmem : h ∈ hs'.filter fun i => key i = key h := List.mem_filter.mpr ⟨hh, by simp⟩
    have hfilter := runWith_filter (fun i b o hb ho => by
      have : ∃ j, key j = key i ∧ ask j = .ok (some b) := by
        cases hc : cache.lookup (key i) with
        | none => rw [hc, Option.none_or] at hb; exact run_answer hr' hb
        | some a => rw [hc, Option.some_or] at hb; exact run_answer hr (hb ▸ hc)
      obtain ⟨j, hj, hask⟩ := this
      exact htag i j b o hj.symm hask ho) hboth (key h)
    have hfilter' := runWith_filter (fun i b o hb ho => by
      obtain ⟨j, hj, hask⟩ := run_answer hr' hb
      exact htag i j b o hj.symm hask ho) hown (key h)
    cases a with
    | none =>
      -- the joint run answers every item of the key no
      have hnone : runWith key use (fun k => (cache.lookup k).or (cache'.lookup k)) (hs'.filter fun i => key i = key h) =
          .ok [] := runWith_eq_nil fun i hi => by
        have hik : key i = key h := by simpa using (List.mem_filter.mp hi).2
        rw [hik, hlookup]
        rfl
      rw [hnone] at hfilter
      rw [← Except.ok.inj hfilter] at hfilter'
      have hres := runWith_nil hfilter' hmem
      rw [hlookup'] at hres
      rcases hb with hb | hb
      · rw [ha] at hb
        cases hb
      · cases ha'.symm.trans hb
        exact hres
    | some c =>
      cases a' with
      | some c' => exact absurd (by rw [ha, ha', hsame i j c c' hkeys ha ha']) hne
      | none =>
        have hnone : runWith key use (cache'.lookup ·) (hs'.filter fun i => key i = key h) = .ok [] :=
          runWith_eq_nil fun i hi => by
            have hik : key i = key h := by simpa using (List.mem_filter.mp hi).2
            rw [hik, hlookup']
            rfl
        rw [hnone] at hfilter'
        rw [← Except.ok.inj hfilter'] at hfilter
        have hres := runWith_nil hfilter hmem
        simp only [hlookup, Option.some_or] at hres
        rcases hb with hb | hb
        · cases ha.symm.trans hb
          exact hres
        · rw [ha'] at hb
          cases hb
  · intro hcond
    refine (runWith_congr fun h hh => ?_).trans hown
    obtain ⟨j, a', hj, ha', hlookup'⟩ := hfirst h hh
    cases hi : firstOf key hs (key h) with
    | none => rw [(run_lookup hr rfl).2 hi, Option.none_or]
    | some i =>
      obtain ⟨a, ha, hlookup⟩ := (run_lookup hr rfl).1 i hi
      simp only [hlookup, hlookup', Option.some_or, Option.getD_some]
      by_cases haa : a = a'
      · rw [haa]
      · have hne : ask i ≠ ask j := fun h => haa (Except.ok.inj (ha.symm.trans (h.trans ha')))
        have hnone := hcond (key h) i j hi hj hne
        cases a with
        | none =>
          cases a' with
          | none => rfl
          | some c' => exact (hnone c' (.inr ha') h hh rfl).symm
        | some c =>
          have hc : use h c = .ok [] := hnone c (.inl ha) h hh rfl
          cases a' with
          | none => exact hc
          | some c' => exact hc.trans (hnone c' (.inr ha') h hh rfl).symm

end Memo
