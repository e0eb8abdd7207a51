import PgEddy.Lib.Fallible
import PgEddy.Projection

/-!
# What a projection puts into a row

The items of a clause are evaluated one after the other, and each value is put under the column of its item. The columns of the
row are the names of the items, and two items of one name share a column.
-/

namespace PgEddy
namespace ProjectionAux

open Fallible FirstSeen StableSort

variable {E : Engine} {P : ProjectionParts E}

/-- What a list of computations gives was computed. -/
theorem exists_of_mem_mapM {ε α β : Type} {f : α → Except ε β} {as : List α} {bs : List β} (h : as.mapM f = .ok bs) {b : β}
    (hb : b ∈ bs) : ∃ a ∈ as, f a = .ok b := by
  have hall := mapM_eq_ok.mp h
  clear h
  induction hall with
  | nil => simp at hb
  | cons hab _ ih =>
    obtain rfl | hb := List.mem_cons.mp hb
    · exact ⟨_, List.mem_cons_self, hab⟩
    · obtain ⟨a, ha, hfa⟩ := ih hb
      exact ⟨a, List.mem_cons_of_mem _ ha, hfa⟩

/-! ## Columns -/

/-- The values of items, put under their columns. -/
def putColumns (P : ProjectionParts E) (value : Expr → Exec (Value E.ch)) : List (ReturnItem × Nat) → Row E.ch → Exec (Row E.ch)
  | [], outRow => .ok outRow
  | (item, idx) :: rest, outRow => do
    let val ← value item.expr
    putColumns P value rest (outRow.insert (columnKey P.floatText item idx) val)

/-- The names under which items are put. -/
def namesOf (P : ProjectionParts E) (pairs : List (ReturnItem × Nat)) : List String :=
  pairs.map fun p => columnKey P.floatText p.1 p.2

theorem namesOf_zipIdx (items : List ReturnItem) : namesOf P items.zipIdx = columnNames P.floatText items := rfl

theorem projectGroup_eq (group : RowGroup E) (params : Params) (pairs : List (ReturnItem × Nat)) (outRow : Row E.ch) :
    projectGroup P group params pairs outRow =
      putColumns P (evalWithAgg E (evalAggregateCall P) group.rows group.keyRow params) pairs outRow := by
  induction pairs generalizing outRow with
  | nil => rfl
  | cons p rest ih =>
    obtain ⟨item, idx⟩ := p
    rw [projectGroup, putColumns]
    exact bind_congr fun val => ih _

theorem projectItems_eq (row : Row E.ch) (params : Params) {pairs : List (ReturnItem × Nat)}
    (hstar : ∀ p ∈ pairs, p.1.expr ≠ .star) (outRow : Row E.ch) :
    projectItems P row params pairs outRow = putColumns P (fun e => evalExpr E e row params) pairs outRow := by
  induction pairs generalizing outRow with
  | nil => rfl
  | cons p rest ih =>
    obtain ⟨item, idx⟩ := p
    have hrest : ∀ p ∈ rest, p.1.expr ≠ .star := fun p hp => hstar p (List.mem_cons_of_mem _ hp)
    have hne : item.expr ≠ .star := hstar (item, idx) List.mem_cons_self
    rw [projectItems, putColumns]
    split
    · contradiction
    · exact bind_congr fun val => ih hrest _

/-- A column that no item has keeps its value. -/
theorem putColumns_other {value : Expr → Exec (Value E.ch)} {pairs : List (ReturnItem × Nat)} {col : String} :
    ∀ {outRow r : Row E.ch}, putColumns P value pairs outRow = .ok r → col ∉ namesOf P pairs → r[col]? = outRow[col]? := by
  induction pairs with
  | nil =>
    intro outRow r h _
    rw [Except.ok.inj h]
  | cons q rest ih =>
    intro outRow r h hcol
    obtain ⟨item, idx⟩ := q
    obtain ⟨v, -, hrest⟩ := bind_eq_ok.mp h
    rw [namesOf, List.map_cons, List.mem_cons, not_or] at hcol
    rw [ih hrest hcol.2, Std.ExtTreeMap.getElem?_insert]
    simp [Ne.symm hcol.1]

/-- Items with names of their own are all in the row. -/
theorem putColumns_holds {value : Expr → Exec (Value E.ch)} {pairs : List (ReturnItem × Nat)} :
    ∀ {outRow r : Row E.ch}, putColumns P value pairs outRow = .ok r → (namesOf P pairs).Nodup →
      ∀ p ∈ pairs, ∃ v, value p.1.expr = .ok v ∧ r[columnKey P.floatText p.1 p.2]? = some v := by
  induction pairs with
  | nil => intro _ _ _ _ p hp; simp at hp
  | cons q rest ih =>
    intro outRow r h hnodup p hp
    obtain ⟨item, idx⟩ := q
    obtain ⟨v, hv, hrest⟩ := bind_eq_ok.mp h
    rw [namesOf, List.map_cons, List.nodup_cons] at hnodup
    obtain rfl | hp := List.mem_cons.mp hp
    · refine ⟨v, hv, ?_⟩
      rw [putColumns_other hrest hnodup.1, Std.ExtTreeMap.getElem?_insert_self]
    · exact ih hrest hnodup.2 p hp

theorem size_putColumns_le {value : Expr → Exec (Value E.ch)} {pairs : List (ReturnItem × Nat)} :
    ∀ {outRow r : Row E.ch}, putColumns P value pairs outRow = .ok r → r.size ≤ outRow.size + pairs.length := by
  induction pairs with
  | nil =>
    intro outRow r h
    rw [Except.ok.inj h]
    exact Nat.le_refl _
  | cons q rest ih =>
    intro outRow r h
    obtain ⟨item, idx⟩ := q
    obtain ⟨v, -, hrest⟩ := bind_eq_ok.mp h
    have hle := ih hrest
    rw [Std.ExtTreeMap.size_insert] at hle
    rw [List.length_cons]
    split at hle <;> omega

/-- A row has a column for each item if and only if each item has a name of its own that was not in the row. -/
theorem size_putColumns_iff {value : Expr → Exec (Value E.ch)} {pairs : List (ReturnItem × Nat)} :
    ∀ {outRow r : Row E.ch}, putColumns P value pairs outRow = .ok r →
      (r.size = outRow.size + pairs.length ↔ (namesOf P pairs).Nodup ∧ ∀ col ∈ namesOf P pairs, col ∉ outRow) := by
  induction pairs with
  | nil =>
    intro outRow r h
    rw [Except.ok.inj h]
    simp [namesOf]
  | cons q rest ih =>
    intro outRow r h
    obtain ⟨item, idx⟩ := q
    obtain ⟨v, -, hrest⟩ := bind_eq_ok.mp h
    have hle := size_putColumns_le hrest
    have hiff := ih hrest
    rw [Std.ExtTreeMap.size_insert] at hle hiff
    rw [namesOf, List.map_cons, List.nodup_cons, List.length_cons]
    change _ ↔ (columnKey P.floatText item idx ∉ namesOf P rest ∧ (namesOf P rest).Nodup) ∧
      ∀ col ∈ columnKey P.floatText item idx :: namesOf P rest, col ∉ outRow
    by_cases hmem : columnKey P.floatText item idx ∈ outRow
    · rw [if_pos (Std.ExtTreeMap.mem_iff_contains.mp hmem)] at hle
      constructor
      · intro hsize
        omega
      · intro hall
        exact absurd hmem (hall.2 _ List.mem_cons_self)
    · rw [if_neg fun hin => hmem (Std.ExtTreeMap.mem_iff_contains.mpr hin)] at hiff
      have harith : r.size = outRow.size + (rest.length + 1) ↔ r.size = outRow.size + 1 + rest.length := by omega
      rw [harith, hiff]
      constructor
      · rintro ⟨hnodup, hnew⟩
        have hcol : columnKey P.floatText item idx ∉ namesOf P rest := fun hcol => by
          simpa using hnew _ hcol
        refine ⟨⟨hcol, hnodup⟩, fun col hc => ?_⟩
        obtain rfl | hc := List.mem_cons.mp hc
        · exact hmem
        · exact fun hin => hnew col hc (by simp [hin])
      · rintro ⟨⟨hcol, hnodup⟩, hnew⟩
        refine ⟨hnodup, fun col hc hin => ?_⟩
        rw [Std.ExtTreeMap.mem_insert] at hin
        obtain heq | hin := hin
        · exact hcol (compare_eq_iff_eq.mp heq ▸ hc)
        · exact hnew col (List.mem_cons_of_mem _ hc) hin

/-! ## Groups -/

/-- The key of a row with its text, and the row. -/
def keyedRow (P : ProjectionParts E) (items : List ReturnItem) (params : Params) (row : Row E.ch) :
    Exec (String × Row E.ch × Row E.ch) := do
  let (keyRow, parts) ← groupKey P row params items.zipIdx ∅
  return ((String.singleton (Char.ofNat 0)).intercalate parts, keyRow, row)

/-- The group of rows with their keys. The first of them gives the key. -/
def toGroup : List (String × Row E.ch × Row E.ch) → RowGroup E
  | [] => ⟨∅, [], ∅⟩
  | (fp, keyRow, row) :: rest => ⟨keyRow, row :: rest.map fun k => k.2.2, row⟩

theorem rows_toGroup (ks : List (String × Row E.ch × Row E.ch)) : (toGroup ks).rows = ks.map fun k => k.2.2 := by
  cases ks <;> rfl

theorem toGroup_append_singleton {ks : List (String × Row E.ch × Row E.ch)} (h : ks ≠ []) (k : String × Row E.ch × Row E.ch) :
    toGroup (ks ++ [k]) = { toGroup ks with rows := (toGroup ks).rows ++ [k.2.2] } := by
  cases ks with
  | nil => exact absurd rfl h
  | cons k' ks => simp [toGroup]

/-- The groups of rows with their keys, as the executor keeps them. -/
def asRowGroups (gs : List (String × List (String × Row E.ch × Row E.ch))) : RowGroups E :=
  gs.map fun g => (g.1, toGroup g.2)

theorem addToGroup_asRowGroups (k : String × Row E.ch × Row E.ch) {gs : List (String × List (String × Row E.ch × Row E.ch))}
    (h : ∀ g ∈ gs, g.2 ≠ []) : addToGroup k.1 k.2.1 k.2.2 (asRowGroups gs) = asRowGroups (addTo k.1 k gs) := by
  induction gs with
  | nil => rfl
  | cons g gs ih =>
    have hrest : ∀ g ∈ gs, g.2 ≠ [] := fun g hg => h g (List.mem_cons_of_mem _ hg)
    rw [asRowGroups, List.map_cons, addToGroup, addTo]
    by_cases heq : g.1 = k.1
    · rw [if_pos heq, if_pos heq, asRowGroups, List.map_cons, toGroup_append_singleton (h g List.mem_cons_self)]
    · rw [if_neg heq, if_neg heq, asRowGroups, List.map_cons]
      exact congrArg _ (ih hrest)

theorem addTo_ne_nil {k : String × Row E.ch × Row E.ch} {gs : List (String × List (String × Row E.ch × Row E.ch))}
    (h : ∀ g ∈ gs, g.2 ≠ []) : ∀ g ∈ addTo k.1 k gs, g.2 ≠ [] := by
  induction gs with
  | nil => simp [addTo]
  | cons g gs ih =>
    have hrest : ∀ g ∈ gs, g.2 ≠ [] := fun g hg => h g (List.mem_cons_of_mem _ hg)
    intro g' hg'
    rw [addTo] at hg'
    split at hg'
    · obtain rfl | hg' := List.mem_cons.mp hg'
      · simp
      · exact hrest g' hg'
    · obtain rfl | hg' := List.mem_cons.mp hg'
      · exact h _ List.mem_cons_self
      · exact ih hrest g' hg'

/-- The pass over the rows gives the groups of the rows by the texts of their keys. -/
theorem groupRows_eq_ok {items : List ReturnItem} {params : Params} {rows : List (Row E.ch)} {gs : RowGroups E} :
    groupRows P items params rows [] = .ok gs ↔
      ∃ keyed, rows.mapM (keyedRow P items params) = .ok keyed ∧ gs = asRowGroups (groups Prod.fst keyed) := by
  -- From any groups the pass goes on with the keys of the rows.
  have hgen : ∀ (rows : List (Row E.ch)) (inner : List (String × List (String × Row E.ch × Row E.ch))), (∀ g ∈ inner, g.2 ≠ []) →
      (groupRows P items params rows (asRowGroups inner) = .ok gs ↔
        ∃ keyed, rows.mapM (keyedRow P items params) = .ok keyed ∧
          gs = asRowGroups (keyed.foldl (fun gs k => addTo k.1 k gs) inner)) := by
    intro rows
    induction rows with
    | nil =>
      intro inner _
      rw [groupRows]
      constructor
      · intro h
        exact ⟨[], rfl, (Except.ok.inj h).symm⟩
      · rintro ⟨keyed, hkeyed, rfl⟩
        rw [← Except.ok.inj hkeyed]
        rfl
    | cons row rows ih =>
      intro inner hinner
      rw [groupRows, List.mapM_cons]
      unfold keyedRow
      cases hkey : groupKey P row params items.zipIdx ∅ with
      | error f =>
        constructor
        · intro h
          cases h
        · rintro ⟨keyed, hkeyed, -⟩
          cases hkeyed
      | ok key =>
        obtain ⟨keyRow, parts⟩ := key
        have hadd := addToGroup_asRowGroups
          ((String.singleton (Char.ofNat 0)).intercalate parts, keyRow, row) hinner
        have hstep := ih (addTo ((String.singleton (Char.ofNat 0)).intercalate parts)
          ((String.singleton (Char.ofNat 0)).intercalate parts, keyRow, row) inner)
          (addTo_ne_nil (k := ((String.singleton (Char.ofNat 0)).intercalate parts, keyRow, row)) hinner)
        simp only [ok_bind, pure, Except.pure]
        rw [hadd, hstep]
        constructor
        · rintro ⟨keyed, hkeyed, rfl⟩
          refine ⟨((String.singleton (Char.ofNat 0)).intercalate parts, keyRow, row) :: keyed, ?_, rfl⟩
          change (rows.mapM (keyedRow P items params) >>= _) = _
          rw [hkeyed]
          rfl
        · rintro ⟨all, hall, rfl⟩
          obtain ⟨keyed, hkeyed, hcons⟩ := bind_eq_ok.mp hall
          rw [← Except.ok.inj hcons]
          exact ⟨keyed, hkeyed, rfl⟩
  exact hgen rows [] (by simp)

/-! ## Behind the items -/

/-- Ordering keeps the rows. -/
theorem orderRows_perm {orderValue : Expr → Row E.ch × Row E.ch → Exec (Value E.ch)} {orderBy : List OrderItem} {params : Params}
    {projected ordered : List (Row E.ch × Row E.ch)} (h : orderRows P orderValue orderBy params projected = .ok ordered) :
    ordered.Perm projected := by
  cases orderBy with
  | nil =>
    rw [orderRows] at h
    rw [Except.ok.inj h]
  | cons item items =>
    cases projected with
    | nil =>
      have hnil : orderRows P orderValue (item :: items) params [] = .ok [] := rfl
      rw [hnil] at h
      rw [← Except.ok.inj h]
    | cons first rest =>
      obtain ⟨-, -, hsort⟩ := bind_eq_ok.mp h
      exact sortBy_perm hsort

/-- The rows of a clause that has no more than `ORDER BY` behind its items. -/
theorem finishRows_plain {orderValue : Expr → Row E.ch × Row E.ch → Exec (Value E.ch)} {orderBy : List OrderItem} {params : Params}
    {projected : List (Row E.ch × Row E.ch)} {out : List (Row E.ch)}
    (h : finishRows P orderValue ⟨false, orderBy, none, none⟩ params projected = .ok out) :
    out.Perm (projected.map Prod.fst) := by
  obtain ⟨ordered, hordered, hrest⟩ := bind_eq_ok.mp h
  rw [← Except.ok.inj hrest]
  exact (orderRows_perm hordered).map _

end ProjectionAux
end PgEddy
