import PgEddy.Theorems.GroupedRows
import PgEddy.Theorems.ReturnedRows

/-!
# A column for each item

The planner refuses a clause that names two columns alike, and goes by the names that it sees: those of aliases, variables and
their properties. The executor names every item by its text, which leaves out parentheses. A column is lost where an item that the
planner does not see has the text of another one.
-/

namespace PgEddy

open Binary64 Fallible FirstSeen ProjectionAux GroupingAux ReturnAux

section

variable (floatText : F64 → String)

/-- The planner sees the column of the item. -/
def SeenByCheck (p : ReturnItem × Nat) : Prop := checkedName p.1 p.2 = some (columnKey floatText p.1 p.2)

/-- An item the planner does not see has the column of another one. -/
def HiddenClash (items : List ReturnItem) : Prop :=
  ∃ p ∈ items.zipIdx, ∃ q ∈ items.zipIdx, p.2 ≠ q.2 ∧ ¬SeenByCheck floatText p ∧
    columnKey floatText p.1 p.2 = columnKey floatText q.1 q.2

end

/-- A row with a column for each item, and the value of the item in it. -/
def CompleteRow {E : Engine} (P : ProjectionParts E) (value : Expr → Exec (Value E.ch)) (items : List ReturnItem) (r : Row E.ch) :
    Prop :=
  r.size = items.length ∧ ∀ p ∈ items.zipIdx, ∃ v, value p.1.expr = .ok v ∧ r[columnKey P.floatText p.1 p.2]? = some v

namespace ColumnAux

variable {E : Engine} {P : ProjectionParts E}

/-- The names that an accepted clause shows the check are not seen twice. -/
theorem checkColumns_distinct {pairs : List (ReturnItem × Nat)} : ∀ {seenCols : List String},
    checkColumns pairs seenCols = .ok () →
    (∀ p ∈ pairs, ∀ col, checkedName p.1 p.2 = some col → col ∉ seenCols) ∧
      pairs.Pairwise fun p q => ∀ col, checkedName p.1 p.2 = some col → checkedName q.1 q.2 ≠ some col := by
  induction pairs with
  | nil => simp
  | cons p pairs ih =>
    intro seenCols h
    obtain ⟨item, idx⟩ := p
    rw [checkColumns] at h
    cases hname : checkedName item idx with
    | none =>
      rw [hname] at h
      obtain ⟨hnew, hpairs⟩ := ih h
      refine ⟨fun p hp col hcol => ?_, List.pairwise_cons.mpr ⟨fun q _ col hcol => ?_, hpairs⟩⟩
      · obtain rfl | hp := List.mem_cons.mp hp
        · rw [hname] at hcol
          cases hcol
        · exact hnew p hp col hcol
      · rw [hname] at hcol
        cases hcol
    | some col =>
      rw [hname] at h
      dsimp only at h
      by_cases hmem : col ∈ seenCols
      · rw [if_pos hmem] at h
        cases h
      · rw [if_neg hmem] at h
        obtain ⟨hnew, hpairs⟩ := ih h
        refine ⟨fun p hp col' hcol' => ?_, List.pairwise_cons.mpr ⟨fun q hq col' hcol' hq' => ?_, hpairs⟩⟩
        · obtain rfl | hp := List.mem_cons.mp hp
          · rw [hname] at hcol'
            rw [← Option.some.inj hcol']
            exact hmem
          · exact fun hin => hnew p hp col' hcol' (List.mem_cons_of_mem _ hin)
        · rw [hname] at hcol'
          rw [← Option.some.inj hcol'] at hq'
          exact hnew q hq col hq' List.mem_cons_self

theorem pairwise_zipIdx_lt {α : Type} (items : List α) : items.zipIdx.Pairwise fun p q => p.2 < q.2 := by
  have hgen : ∀ k, (items.zipIdx k).Pairwise (fun p q => p.2 < q.2) ∧ ∀ p ∈ items.zipIdx k, k ≤ p.2 := by
    induction items with
    | nil => simp
    | cons a items ih =>
      intro k
      obtain ⟨hpairs, hle⟩ := ih (k + 1)
      rw [List.zipIdx_cons]
      refine ⟨List.pairwise_cons.mpr ⟨fun p hp => hle p hp, hpairs⟩, fun p hp => ?_⟩
      obtain rfl | hp := List.mem_cons.mp hp
      · exact Nat.le_refl _
      · exact Nat.le_of_succ_le (hle p hp)
  exact (hgen 0).1

/-- Two columns of an accepted clause have one name only where there is a hidden clash. -/
theorem columnNames_nodup_iff {floatText : F64 → String} {items : List ReturnItem} (h : checkColumns items.zipIdx [] = .ok ()) :
    (columnNames floatText items).Nodup ↔ ¬HiddenClash floatText items := by
  constructor
  · rintro hnodup ⟨p, hp, q, hq, hne, -, hcol⟩
    exact hne (congrArg Prod.snd (List.inj_on_of_nodup_map hnodup hp hq hcol))
  · intro hclash
    obtain ⟨-, hseen⟩ := checkColumns_distinct h
    rw [columnNames, List.Nodup, List.pairwise_map]
    refine (hseen.and (pairwise_zipIdx_lt items)).imp_of_mem fun {p q} hp hq hpq hcol => ?_
    obtain ⟨hpq, hlt⟩ := hpq
    by_cases hp' : SeenByCheck floatText p
    · by_cases hq' : SeenByCheck floatText q
      · exact hpq _ hp' (hcol ▸ hq')
      · exact hclash ⟨q, hq, p, hp, Nat.ne_of_gt hlt, hq', hcol.symm⟩
    · exact hclash ⟨p, hp, q, hq, Nat.ne_of_lt hlt, hp', hcol⟩

/-- What a row that was put together holds, if the names of its items are different and else not. -/
theorem completeRow_iff {value : Expr → Exec (Value E.ch)} {items : List ReturnItem} {r : Row E.ch}
    (h : putColumns P value items.zipIdx ∅ = .ok r) : CompleteRow P value items r ↔ (columnNames P.floatText items).Nodup := by
  have hsize := size_putColumns_iff h
  rw [Std.ExtTreeMap.size_empty, Nat.zero_add, List.length_zipIdx, namesOf_zipIdx] at hsize
  constructor
  · intro hr
    exact (hsize.mp hr.1).1
  · intro hnodup
    exact ⟨hsize.mpr ⟨hnodup, by simp⟩, putColumns_holds h hnodup⟩

/-- The rows that are returned are among the projected ones. -/
theorem mem_of_finishRows {orderValue : Expr → Row E.ch × Row E.ch → Exec (Value E.ch)} {t : ReturnTail} {params : Params}
    {projected : List (Row E.ch × Row E.ch)} {out : List (Row E.ch)} (h : finishRows P orderValue t params projected = .ok out) :
    ∀ r ∈ out, ∃ p ∈ projected, p.1 = r := by
  obtain ⟨ordered, skip, limit, hordered, -, -, rfl⟩ := finishRows_eq_ok.mp h
  have hwindow : ∀ kept : List (Row E.ch × Row E.ch), window skip limit kept ⊆ kept := by
    intro kept
    unfold window
    cases limit with
    | none => exact List.drop_subset _ _
    | some n => exact fun p hp => List.drop_subset _ _ (List.take_subset _ _ hp)
  have hkept : keptRows P t.distinct ordered ⊆ ordered := by
    unfold keptRows
    split
    · exact (retainNew_sublist ordered []).subset
    · exact List.Subset.refl _
  intro r hr
  obtain ⟨p, hp, rfl⟩ := List.mem_map.mp hr
  exact ⟨p, (orderRows_perm hordered).subset (hkept (hwindow _ hp)), rfl⟩

end ColumnAux

open ColumnAux

/-- The values of the items of a clause: in a row of its input, or over some rows of it. -/
def ItemValues {E : Engine} (P : ProjectionParts E) (rows : List (Row E.ch)) (params : Params)
    (value : Expr → Exec (Value E.ch)) : Prop :=
  (∃ row ∈ rows, value = fun e => evalExpr E e row params) ∨
    ∃ group : RowGroup E, group.rows ⊆ rows ∧ value = evalWithAgg E (evalAggregateCall P) group.rows group.keyRow params

/-- A row of a clause that the planner accepts, without `*`, has a column for each item with the value of the item, if and only if
no item that the check of the planner does not see has the column of another item. -/
theorem columns_complete_iff {E : Engine} {P : ProjectionParts E} {rows : List (Row E.ch)} {items : List ReturnItem}
    {t : ReturnTail}
    {params : Params} {out : List (Row E.ch)} (hcheck : checkColumns items.zipIdx [] = .ok ())
    (hstar : ∀ item ∈ items, item.expr ≠ .star) (h : execProject P (.ok rows) items t params = .ok out) :
    ∀ r ∈ out, ∃ value, ItemValues P rows params value ∧ (CompleteRow P value items r ↔ ¬HiddenClash P.floatText items) := by
  intro r hr
  have hput : ∃ value, ItemValues P rows params value ∧ putColumns P value items.zipIdx ∅ = .ok r := by
    by_cases hagg : (items.any fun item => exprHasAggregate item.expr) = true
    · obtain ⟨-, -, h⟩ := bind_eq_ok.mp h
      obtain ⟨-, -, h⟩ := bind_eq_ok.mp h
      rw [ok_bind, if_pos hagg] at h
      obtain ⟨-, -, h⟩ := bind_eq_ok.mp h
      obtain ⟨gs, hgs, h⟩ := bind_eq_ok.mp h
      obtain ⟨projected, hprojected, h⟩ := bind_eq_ok.mp h
      obtain ⟨p, hp, rfl⟩ := mem_of_finishRows h r hr
      obtain ⟨g, hg, hrow⟩ := exists_of_mem_mapM hprojected hp
      obtain ⟨outRow, hout, hrow⟩ := bind_eq_ok.mp hrow
      rw [← Except.ok.inj hrow]
      refine ⟨_, .inr ⟨g.2, fun row hrow => ?_, rfl⟩, (projectGroup_eq g.2 params items.zipIdx ∅).symm.trans hout⟩
      exact (areGroups_of_clauseGroups hgs).perm.subset (List.mem_flatMap.mpr ⟨g, hg, hrow⟩)
    · rw [Bool.not_eq_true] at hagg
      rw [execProject_plain hagg] at h
      obtain ⟨-, -, h⟩ := bind_eq_ok.mp h
      obtain ⟨-, -, h⟩ := bind_eq_ok.mp h
      obtain ⟨projected, hprojected, h⟩ := bind_eq_ok.mp h
      obtain ⟨p, hp, rfl⟩ := mem_of_finishRows h r hr
      obtain ⟨row, hrow, hmade⟩ := exists_of_mem_mapM hprojected hp
      obtain ⟨outRow, hout, hmade⟩ := bind_eq_ok.mp hmade
      rw [← Except.ok.inj hmade]
      refine ⟨_, .inl ⟨row, hrow, rfl⟩, (projectItems_eq row params (fun p hp => ?_) ∅).symm.trans hout⟩
      exact hstar p.1 (List.fst_mem_of_mem_zipIdx hp)
  obtain ⟨value, hvalue, hput⟩ := hput
  exact ⟨value, hvalue, (completeRow_iff hput).trans (columnNames_nodup_iff hcheck)⟩

namespace ColumnAux

/-! ## Two expressions with one text -/

/-- `true OR (false AND false)` and `(true OR false) AND false`. -/
def twoTexts : List ReturnItem :=
  [⟨.or (.boolLit true) (.and (.boolLit false) (.boolLit false)), none⟩,
    ⟨.and (.or (.boolLit true) (.boolLit false)) (.boolLit false), none⟩]

theorem columnKey_twoTexts {p : ReturnItem × Nat} (hp : p ∈ twoTexts.zipIdx) :
    columnKey (ProjectionParts.bare .debug).floatText p.1 p.2 = "true OR false AND false" := by
  simp only [twoTexts, List.zipIdx_cons, List.zipIdx_nil, List.mem_cons, List.not_mem_nil, or_false] at hp
  obtain rfl | rfl := hp <;> simp [columnKey, exprDefaultName]

theorem hiddenClash_twoTexts : HiddenClash (ProjectionParts.bare .debug).floatText twoTexts := by
  have hfirst : (⟨.or (.boolLit true) (.and (.boolLit false) (.boolLit false)), none⟩, 0) ∈ twoTexts.zipIdx := by
    simp [twoTexts]
  have hsecond : (⟨.and (.or (.boolLit true) (.boolLit false)) (.boolLit false), none⟩, 1) ∈ twoTexts.zipIdx := by
    simp [twoTexts]
  refine ⟨_, hfirst, _, hsecond, by simp, fun hseen => ?_, ?_⟩
  · cases hseen
  · rw [columnKey_twoTexts hfirst, columnKey_twoTexts hsecond]

theorem execProject_twoTexts : ∃ r, execProject (.bare .debug) (.ok [∅]) twoTexts ⟨false, [], none, none⟩ ∅ = .ok [r] := by
  have hagg : (twoTexts.any fun item => exprHasAggregate item.expr) = false := by
    simp [twoTexts, exprHasAggregate_eq, isCall, Expr.children]
  rw [execProject_plain hagg]
  exact ⟨_, rfl⟩

end ColumnAux

/-- Two expressions that differ in their parentheses share a column. -/
theorem columns_complete_iff_of_twoTexts :
    ∃ r, execProject (.bare .debug) (.ok [∅]) twoTexts ⟨false, [], none, none⟩ ∅ = .ok [r] ∧
      ∃ value, ItemValues (.bare .debug) [∅] ∅ value ∧ ¬CompleteRow (.bare .debug) value twoTexts r := by
  obtain ⟨r, hr⟩ := execProject_twoTexts
  have hstar : ∀ item ∈ twoTexts, item.expr ≠ .star := by
    simp [twoTexts]
  obtain ⟨value, hvalue, hiff⟩ := columns_complete_iff (by rfl) hstar hr r List.mem_cons_self
  exact ⟨r, hr, value, hvalue, fun hcomplete => hiff.mp hcomplete hiddenClash_twoTexts⟩

end PgEddy
