import PgEddy.Lemmas.Names
import PgEddy.SqlRows

/-!
# Tables and their variables

Each occurrence of a node or a relationship gets a table and a name. The conditions that the compiler adds for a new table say of
its row that it is the row of the tables with its name, and of no others. Numbered tables stand for rows by their places.
-/

namespace PgEddy
namespace SqlNameAux

open SqlCompiler

/-! ## Names -/

/-- The name of an occurrence. -/
def nameOf (pre : String) (var : Option String) (i : Nat) : String := var.getD (pre ++ toString (i + 1))

/-- A variable that is not named like the compiler's own. -/
def PlainVar (var : Option String) : Prop := ∀ v, var = some v → startsWith "__anonymous_" v = false

/-- The prefixes of the compiler's own names. -/
inductive IsOwn : String → Prop where
  | node : IsOwn "__anonymous_node_"
  | edge : IsOwn "__anonymous_edge_"

theorem startsWith_own {pre : String} (h : IsOwn pre) (s : String) : startsWith "__anonymous_" (pre ++ s) = true := by
  have hpre : "__anonymous_".toList <+: pre.toList := by
    cases h
    · exact List.isPrefixOf_iff_prefix.mp (by decide +kernel)
    · exact List.isPrefixOf_iff_prefix.mp (by decide +kernel)
  rw [startsWith, String.toList_append]
  exact List.isPrefixOf_iff_prefix.mpr (hpre.trans (List.prefix_append _ _))

/-- Two occurrences have one name if they have one variable. -/
theorem nameOf_eq_iff {pre : String} (hpre : IsOwn pre) {v w : Option String} (hv : PlainVar v) (hw : PlainVar w) {i j : Nat}
    (hij : i ≠ j) :
    nameOf pre v i = nameOf pre w j ↔ ∃ x, v = some x ∧ w = some x := by
  have hown : ∀ {x : String} {s : String}, PlainVar (some x) → x ≠ pre ++ s := by
    intro x s hx heq
    have hplain := hx x rfl
    rw [heq, startsWith_own hpre] at hplain
    cases hplain
  cases v with
  | some x =>
    cases w with
    | some y =>
      simp only [nameOf, Option.getD_some, Option.some.injEq]
      exact ⟨fun h => ⟨x, rfl, h.symm⟩, fun ⟨z, hx, hy⟩ => hx.trans hy.symm⟩
    | none =>
      refine iff_of_false (fun h => hown hv h) ?_
      simp
  | none =>
    cases w with
    | some y =>
      refine iff_of_false (fun h => hown hw h.symm) ?_
      simp
    | none =>
      refine iff_of_false (fun h => ?_) (by simp)
      have hrepr : i + 1 = j + 1 := Nat.repr_inj.mp ((String.append_right_inj _).mp h)
      omega

/-- The occurrences of variables, in order. -/
def occurrencesOf (pre : String) (vars : List (Option String)) : List (String × Nat) :=
  vars.zipIdx.map fun p => (nameOf pre p.1 p.2, p.2)

theorem occurrencesOf_append (pre : String) (vars : List (Option String)) (var : Option String) :
    occurrencesOf pre (vars ++ [var]) = occurrencesOf pre vars ++ [(nameOf pre var vars.length, vars.length)] := by
  simp [occurrencesOf, List.zipIdx_append]

/-! ## Tables of variables -/

section

variable {nvars evars : List (Option String)} {v : String}

theorem getElem?_of_idxOf? {vars : List (Option String)} {w : Option String} {i : Nat} (h : vars.idxOf? w = some i) :
    vars[i]? = some w := by
  obtain ⟨hi, hw, -⟩ := List.idxOf?_eq_some_iff.mp h
  rw [List.getElem?_eq_getElem hi, hw]

theorem node_of_tableOf {i : Nat} (h : tableOf nvars evars v = some (.node i)) : nvars[i]? = some (some v) := by
  rcases Option.or_eq_some_iff.mp h with h | ⟨-, h⟩
  · obtain ⟨j, hj, hji⟩ := Option.map_eq_some_iff.mp h
    cases hji
    exact getElem?_of_idxOf? hj
  · obtain ⟨j, -, hji⟩ := Option.map_eq_some_iff.mp h
    cases hji

theorem edge_of_tableOf {i : Nat} (h : tableOf nvars evars v = some (.edge i)) : evars[i]? = some (some v) := by
  rcases Option.or_eq_some_iff.mp h with h | ⟨-, h⟩
  · obtain ⟨j, -, hji⟩ := Option.map_eq_some_iff.mp h
    cases hji
  · obtain ⟨j, hj, hji⟩ := Option.map_eq_some_iff.mp h
    cases hji
    exact getElem?_of_idxOf? hj

theorem tableOf_eq_none : tableOf nvars evars v = none ↔ some v ∉ nvars ∧ some v ∉ evars := by
  rw [tableOf, Option.or_eq_none_iff, Option.map_eq_none_iff, Option.map_eq_none_iff, List.idxOf?_eq_none_iff,
    List.idxOf?_eq_none_iff]

theorem idxOf?_concat (vars : List (Option String)) (var : Option String) (w : Option String) :
    (vars ++ [var]).idxOf? w = (vars.idxOf? w).or (if var = w then some vars.length else none) := by
  simp only [List.idxOf?, List.findIdx?_append, List.findIdx?_singleton]
  by_cases h : var = w <;> simp [h]

/-- A variable that is there keeps its table. -/
theorem tableOf_concat_node (var : Option String) (h : ∀ w, var = some w → tableOf nvars evars w = none) :
    tableOf (nvars ++ [var]) evars v = if var = some v then some (.node nvars.length) else tableOf nvars evars v := by
  rw [tableOf, idxOf?_concat]
  by_cases hvar : var = some v
  · have hnone := (tableOf_eq_none.mp (h v hvar)).1
    rw [if_pos hvar, if_pos hvar, List.idxOf?_eq_none_iff.mpr hnone]
    rfl
  · rw [if_neg hvar, if_neg hvar, Option.or_none, tableOf]

theorem tableOf_concat_edge (var : Option String) (h : ∀ w, var = some w → tableOf nvars evars w = none) :
    tableOf nvars (evars ++ [var]) v = if var = some v then some (.edge evars.length) else tableOf nvars evars v := by
  rw [tableOf, idxOf?_concat]
  by_cases hvar : var = some v
  · obtain ⟨hnode, hedge⟩ := tableOf_eq_none.mp (h v hvar)
    rw [if_pos hvar, if_pos hvar, List.idxOf?_eq_none_iff.mpr hnode, List.idxOf?_eq_none_iff.mpr hedge]
    rfl
  · rw [if_neg hvar, if_neg hvar, Option.or_none, tableOf]

theorem idxOf?_concat_of_mem {vars : List (Option String)} {var : Option String} (h : var ∈ vars) (w : Option String) :
    (vars ++ [var]).idxOf? w = vars.idxOf? w := by
  rw [idxOf?_concat]
  by_cases hw : var = w
  · obtain ⟨i, hi⟩ := Option.isSome_iff_exists.mp (List.isSome_idxOf?.mpr (hw ▸ h))
    rw [hi, Option.some_or]
  · rw [if_neg hw, Option.or_none]

end

/-! ## The conditions of a new table -/

/-- What the compiler asks of the value of a new occurrence, and what that says of it. -/
theorem conditions_iff {ι : Type} [DecidableEq ι] {pre : String} (hpre : IsOwn pre) {vars : List (Option String)}
    {var : Option String}
    (hvars : ∀ v ∈ vars, PlainVar v) (hvar : PlainVar var) {ids : List ι} (hlen : ids.length = vars.length) (x : ι)
    (hdistinct : byVariable (vars.zip ids)) {existing : Option Nat}
    (hexisting : ∀ i, existing = some i → ∃ v, var = some v ∧ vars[i]? = some (some v))
    (hnone : existing = none → ∀ v, var = some v → some v ∉ vars) :
    ((∀ i, existing = some i → ids[i]? = some x) ∧
        ∀ o ∈ (occurrencesOf pre vars).filter (fun o => o.1 ≠ nameOf pre var vars.length), ids[o.2]? ≠ some x) ↔
      ∀ q ∈ vars.zip ids, q.2 = x ↔ ∃ v, q.1 = some v ∧ var = some v := by
  have hplace : ∀ {i : Nat} {v : Option String} {y : ι}, vars[i]? = some v → ids[i]? = some y → (v, y) ∈ vars.zip ids := by
    intro i v y hv hy
    exact List.mem_of_getElem? (List.getElem?_zip_eq_some.mpr ⟨hv, hy⟩)
  have hget : ∀ q ∈ vars.zip ids, ∃ i, i < vars.length ∧ vars[i]? = some q.1 ∧ ids[i]? = some q.2 := by
    intro q hq
    obtain ⟨i, hi⟩ := List.mem_iff_getElem?.mp hq
    obtain ⟨hv, hy⟩ := List.getElem?_zip_eq_some.mp hi
    exact ⟨i, (List.getElem?_eq_some_iff.mp hv).1, hv, hy⟩
  have hothers : (∀ o ∈ (occurrencesOf pre vars).filter (fun o => o.1 ≠ nameOf pre var vars.length), ids[o.2]? ≠ some x) ↔
      ∀ q ∈ vars.zip ids, q.2 = x → ∃ v, q.1 = some v ∧ var = some v := by
    constructor
    · intro h q hq hx
      obtain ⟨i, hi, hv, hy⟩ := hget q hq
      by_contra hother
      have hmem : (nameOf pre q.1 i, i) ∈ occurrencesOf pre vars := by
        refine List.mem_map.mpr ⟨(q.1, i), ?_, rfl⟩
        rw [List.mem_zipIdx_iff_getElem?]
        exact hv
      refine h _ (List.mem_filter.mpr ⟨hmem, ?_⟩) (by rw [hy, hx])
      have hne : i ≠ vars.length := Nat.ne_of_lt hi
      have hname := (nameOf_eq_iff hpre (hvars q.1 (List.mem_of_getElem? hv)) hvar hne).not.mpr hother
      simpa using hname
    · intro h o ho hx
      obtain ⟨ho, hname⟩ := List.mem_filter.mp ho
      obtain ⟨p, hp, rfl⟩ := List.mem_map.mp ho
      obtain ⟨v, i⟩ := p
      rw [List.mem_zipIdx_iff_getElem?] at hp
      have hne : i ≠ vars.length := Nat.ne_of_lt (List.getElem?_eq_some_iff.mp hp).1
      have hsame := h _ (hplace hp hx) rfl
      have heq := (nameOf_eq_iff hpre (hvars v (List.mem_of_getElem? hp)) hvar hne).mpr hsame
      simp [heq] at hname
  rw [hothers]
  cases existing with
  | none =>
    have hnot := hnone rfl
    constructor
    · rintro ⟨-, h⟩ q hq
      refine ⟨h q hq, fun ⟨v, hv, hvar'⟩ => ?_⟩
      obtain ⟨i, -, hi, -⟩ := hget q hq
      exact absurd (hv ▸ List.mem_of_getElem? hi) (hnot v hvar')
    · intro h
      exact ⟨nofun, fun q hq => (h q hq).mp⟩
  | some i =>
    obtain ⟨v, hvar', hi⟩ := hexisting i rfl
    have hlt : i < ids.length := by
      rw [hlen]
      exact (List.getElem?_eq_some_iff.mp hi).1
    have hid : ids[i]? = some ids[i] := List.getElem?_eq_getElem hlt
    constructor
    · rintro ⟨hexists, h⟩ q hq
      refine ⟨h q hq, fun ⟨w, hw, hvar''⟩ => ?_⟩
      -- The tables of one variable have one value.
      have hx : ids[i] = x := Option.some.inj (hid.symm.trans (hexists i rfl))
      obtain ⟨j, -, hj, hjd⟩ := hget q hq
      obtain rfl : w = v := Option.some.inj (hvar''.symm.trans hvar')
      rw [← hx]
      by_cases hij : i = j
      · subst hij
        exact Option.some.inj (hjd.symm.trans hid)
      · have hpair : ∀ {i j : Nat} {y z : ι}, i < j → vars[i]? = some (some w) → ids[i]? = some y → vars[j]? = some (some w) →
            ids[j]? = some z → y = z := by
          intro i j y z hlt hi hy hj hz
          have hi' : (vars.zip ids)[i]? = some (some w, y) := List.getElem?_zip_eq_some.mpr ⟨hi, hy⟩
          have hj' : (vars.zip ids)[j]? = some (some w, z) := List.getElem?_zip_eq_some.mpr ⟨hj, hz⟩
          obtain ⟨hilt, hieq⟩ := List.getElem?_eq_some_iff.mp hi'
          obtain ⟨hjlt, hjeq⟩ := List.getElem?_eq_some_iff.mp hj'
          have hrel := List.pairwise_iff_getElem.mp hdistinct i j hilt hjlt hlt
          rw [hieq, hjeq] at hrel
          exact hrel.mpr ⟨w, rfl, rfl⟩
        rw [hw] at hj
        rcases Nat.lt_or_gt_of_ne hij with hlt | hgt
        · exact (hpair hlt hi hid hj hjd).symm
        · exact hpair hgt hj hjd hi hid
    · intro h
      refine ⟨fun j hj => ?_, fun q hq => (h q hq).mp⟩
      obtain rfl := Option.some.inj hj
      rw [hid]
      exact congrArg some ((h _ (hplace hi hid)).mpr ⟨v, rfl, hvar'⟩)

end SqlNameAux
end PgEddy
