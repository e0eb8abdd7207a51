import Mathlib.Algebra.BigOperators.Group.List.Basic
import Mathlib.Algebra.Order.Ring.Int
import PgEddy.Lemmas.AggregateCalls
import PgEddy.Lemmas.Projections

/-!
# Rows with aggregates

With an aggregate among its items a clause returns a row for each grouping key. Its groups part the rows of the input: each row
is in the group of its key and in no other, so that no row is counted twice and none is left out.
-/

namespace PgEddy

open Fallible FirstSeen StableSort ProjectionAux

/-! ## The groups of a clause -/

section

variable {E : Engine} (P : ProjectionParts E) (items : List ReturnItem) (params : Params)

/-- The text of the grouping key of a row. -/
def keyText (row : Row E.ch) : Option String := ((keyedRow P items params row).toOption).map Prod.fst

/-- The rows are parted by their keys. Each group has its rows in their order, and the key of the first of them. -/
structure PartedByKey (rows : List (Row E.ch)) (gs : RowGroups E) : Prop where
  keys_nodup : (gs.map Prod.fst).Nodup
  perm : (gs.flatMap fun g => g.2.rows).Perm rows
  rows_eq : ∀ g ∈ gs, g.2.rows = rows.filter fun row => keyText P items params row = some g.1
  first : ∀ g ∈ gs, g.2.rows.head? = some g.2.firstRow
  key : ∀ g ∈ gs, keyedRow P items params g.2.firstRow = .ok (g.1, g.2.keyRow, g.2.firstRow)

end

namespace GroupingAux

variable {E : Engine} {P : ProjectionParts E} {items : List ReturnItem} {params : Params}

theorem row_of_keyedRow {row : Row E.ch} {k : String × Row E.ch × Row E.ch} (h : keyedRow P items params row = .ok k) :
    k.2.2 = row := by
  obtain ⟨key, -, hk⟩ := bind_eq_ok.mp h
  rw [← Except.ok.inj hk]

theorem keyText_of_keyedRow {row : Row E.ch} {k : String × Row E.ch × Row E.ch} (h : keyedRow P items params row = .ok k) :
    keyText P items params row = some k.1 := by
  rw [keyText, h]
  rfl

/-- The rows of the keys are the rows that they were made for. -/
theorem rows_of_keyed {rows : List (Row E.ch)} {keyed : List (String × Row E.ch × Row E.ch)}
    (h : List.Forall₂ (fun row k => keyedRow P items params row = .ok k) rows keyed) : keyed.map (fun k => k.2.2) = rows := by
  induction h with
  | nil => rfl
  | cons hk _ ih => rw [List.map_cons, ih, row_of_keyedRow hk]

/-- The rows of one key. -/
theorem classOf_keyed {rows : List (Row E.ch)} {keyed : List (String × Row E.ch × Row E.ch)}
    (h : List.Forall₂ (fun row k => keyedRow P items params row = .ok k) rows keyed) (fp : String) :
    (classOf Prod.fst keyed fp).map (fun k => k.2.2) = rows.filter fun row => keyText P items params row = some fp := by
  induction h with
  | nil => rfl
  | cons hk _ ih =>
    rw [classOf] at ih ⊢
    rw [List.filter_cons, List.filter_cons, keyText_of_keyedRow hk]
    simp only [Option.some.injEq, decide_eq_true_eq]
    split
    · rw [List.map_cons, ih, row_of_keyedRow hk]
    · exact ih

/-- The pass over the rows parts them. -/
theorem partedByKey_of_groupRows {rows : List (Row E.ch)} {gs : RowGroups E} (h : groupRows P items params rows [] = .ok gs) :
    PartedByKey P items params rows gs := by
  obtain ⟨keyed, hkeyed, rfl⟩ := groupRows_eq_ok.mp h
  have hall := mapM_eq_ok.mp hkeyed
  have hgs : asRowGroups (groups Prod.fst keyed) =
      ((retainNew Prod.fst keyed []).map Prod.fst).map fun fp => (fp, toGroup (classOf Prod.fst keyed fp)) := by
    rw [groups_eq, asRowGroups, List.map_map]
    rfl
  have hmem : ∀ g ∈ asRowGroups (groups Prod.fst keyed),
      ∃ k ∈ keyed, g = (k.1, toGroup (classOf Prod.fst keyed k.1)) := by
    intro g hg
    rw [hgs, List.mem_map] at hg
    obtain ⟨fp, hfp, rfl⟩ := hg
    obtain ⟨k, hk, rfl⟩ := List.mem_map.mp (mem_keys_retainNew.mp hfp).1
    exact ⟨k, hk, rfl⟩
  -- A group has a row, and its first row has its key.
  have hfirst : ∀ k ∈ keyed, ∃ first rest, classOf Prod.fst keyed k.1 = first :: rest ∧ first.1 = k.1 ∧
      keyedRow P items params first.2.2 = .ok first := by
    intro k hk
    cases hclass : classOf Prod.fst keyed k.1 with
    | nil => exact absurd (List.filter_eq_nil_iff.mp hclass k hk) (by simp)
    | cons first rest =>
      have hin : first ∈ classOf Prod.fst keyed k.1 := hclass ▸ List.mem_cons_self
      obtain ⟨hfirst, hkey⟩ := List.mem_filter.mp hin
      obtain ⟨row, -, hrow⟩ := exists_of_mem_mapM hkeyed hfirst
      refine ⟨first, rest, rfl, by simpa using hkey, ?_⟩
      rw [row_of_keyedRow hrow]
      exact hrow
  refine ⟨?_, ?_, ?_, ?_, ?_⟩
  · rw [hgs, List.map_map]
    have hid : (Prod.fst ∘ fun fp => (fp, toGroup (classOf Prod.fst keyed fp))) = id := rfl
    rw [hid, List.map_id]
    exact nodup_retainNew keyed []
  · have hrows : (asRowGroups (groups Prod.fst keyed)).flatMap (fun g => g.2.rows) =
        ((groups Prod.fst keyed).flatMap Prod.snd).map fun k => k.2.2 := by
      rw [asRowGroups, List.flatMap_map, List.map_flatMap]
      exact congrArg (fun f => List.flatMap f _) (funext fun g => rows_toGroup g.2)
    rw [hrows, ← rows_of_keyed hall]
    exact (perm_groups keyed).map _
  · intro g hg
    obtain ⟨k, -, rfl⟩ := hmem g hg
    rw [rows_toGroup, classOf_keyed hall]
  · intro g hg
    obtain ⟨k, hk, rfl⟩ := hmem g hg
    obtain ⟨first, rest, hclass, -, -⟩ := hfirst k hk
    rw [hclass]
    rfl
  · intro g hg
    obtain ⟨k, hk, rfl⟩ := hmem g hg
    obtain ⟨first, rest, hclass, hkey, hrow⟩ := hfirst k hk
    rw [hclass, ← hkey]
    exact hrow

/-- The groups of a clause part its rows, or there are no rows and no keys, and there is one group of no rows. -/
def AreGroups (P : ProjectionParts E) (items : List ReturnItem) (params : Params) (rows : List (Row E.ch)) (gs : RowGroups E) :
    Prop :=
  PartedByKey P items params rows gs ∨
    rows = [] ∧ (∀ item ∈ items, exprHasAggregate item.expr = true) ∧ gs = [("", ⟨∅, [], ∅⟩)]

theorem areGroups_of_clauseGroups {rows : List (Row E.ch)} {gs : RowGroups E} (h : clauseGroups P rows items params = .ok gs) :
    AreGroups P items params rows gs := by
  obtain ⟨found, hfound, hgs⟩ := bind_eq_ok.mp h
  have hparted := partedByKey_of_groupRows hfound
  have hgs := Except.ok.inj hgs
  by_cases hnone : (found.isEmpty && items.all fun item => exprHasAggregate item.expr) = true
  · rw [if_pos hnone] at hgs
    rw [Bool.and_eq_true, List.isEmpty_iff, List.all_eq_true] at hnone
    have hperm := hparted.perm
    rw [hnone.1, List.flatMap_nil] at hperm
    exact .inr ⟨List.nil_perm.mp hperm, hnone.2, hgs.symm⟩
  · rw [if_neg hnone] at hgs
    exact .inl (hgs ▸ hparted)

/-- The rows of all groups are the rows of the input. -/
theorem AreGroups.perm {rows : List (Row E.ch)} {gs : RowGroups E} (h : AreGroups P items params rows gs) :
    (gs.flatMap fun g => g.2.rows).Perm rows := by
  obtain hparted | ⟨rfl, -, rfl⟩ := h
  · exact hparted.perm
  · exact List.Perm.refl _

/-- A clause with aggregates makes a row of each of its groups. -/
theorem execProject_groups {rows : List (Row E.ch)} {orderBy : List OrderItem} {out : List (Row E.ch)}
    (hagg : (items.any fun item => exprHasAggregate item.expr) = true)
    (h : execProject P (.ok rows) items ⟨false, orderBy, none, none⟩ params = .ok out) :
    ∃ gs outs, AreGroups P items params rows gs ∧
      List.Forall₂ (fun g r => projectGroup P g.2 params items.zipIdx ∅ = .ok r) gs outs ∧ out.Perm outs := by
  obtain ⟨-, -, h⟩ := bind_eq_ok.mp h
  obtain ⟨-, -, h⟩ := bind_eq_ok.mp h
  obtain ⟨_, hrows, h⟩ := bind_eq_ok.mp h
  cases Except.ok.inj hrows
  rw [if_pos hagg] at h
  obtain ⟨-, -, h⟩ := bind_eq_ok.mp h
  obtain ⟨gs, hgs, h⟩ := bind_eq_ok.mp h
  obtain ⟨projected, hprojected, h⟩ := bind_eq_ok.mp h
  refine ⟨gs, projected.map Prod.fst, areGroups_of_clauseGroups hgs, ?_, finishRows_plain h⟩
  have hall := mapM_eq_ok.mp hprojected
  rw [List.forall₂_map_right_iff]
  refine hall.imp fun g p hp => ?_
  obtain ⟨outRow, hout, hp⟩ := bind_eq_ok.mp hp
  rw [← Except.ok.inj hp]
  exact hout

/-! ## Aggregates in the rows -/

/-- The value of an item over its group stands in the row of the group. -/
theorem item_of_groups {gs : RowGroups E} {outs : List (Row E.ch)} (hnodup : (columnNames P.floatText items).Nodup)
    (h : List.Forall₂ (fun g r => projectGroup P g.2 params items.zipIdx ∅ = .ok r) gs outs) {p : ReturnItem × Nat}
    (hp : p ∈ items.zipIdx) :
    List.Forall₂ (fun g r => ∃ v, evalWithAgg E (evalAggregateCall P) g.2.rows g.2.keyRow params p.1.expr = .ok v ∧
      r[columnKey P.floatText p.1 p.2]? = some v) gs outs := by
  refine h.imp fun g r hr => ?_
  rw [projectGroup_eq] at hr
  exact putColumns_holds hr hnodup p hp

/-- A call of an aggregate takes the rows of the group. -/
theorem evalWithAgg_aggregate {name : String} (hname : isAggregateName name = true) (args : List Expr) (rows : List (Row E.ch))
    (keyRow : Row E.ch) :
    evalWithAgg E (evalAggregateCall P) rows keyRow params (.functionCall name args) = evalAggregateCall P name args rows params := by
  have hagg : exprHasAggregate (.functionCall name args) = true := by
    rw [exprHasAggregate_eq]
    exact Bool.or_eq_true_iff.mpr (.inl hname)
  rw [evalWithAgg, hagg, Bool.not_true, if_neg Bool.false_ne_true, if_pos hname]

/-- The number that a row has in a column. -/
def countIn (col : String) (r : Row E.ch) : Int :=
  match r[col]? with
  | some (.int n) => n.toInt
  | _ => 0

/-- The list that a row has in a column. -/
def listIn (col : String) (r : Row E.ch) : List Json :=
  match r[col]? with
  | some (.json (.array xs)) => xs
  | _ => []

/-- The value of an argument in a row, where it is not null. -/
def collected (arg : Expr) (params : Params) (row : Row E.ch) : List Json :=
  match orNull E (evalExpr E arg row params) with
  | .ok v => if v.isNull then [] else [v.toJson]
  | .error _ => []

theorem evalAggregateCall_count {name : String} (hbase : (aggregateBase name).1 = "count") {args : List Expr}
    (hargs : args = [] ∨ args = [.star]) (rows : List (Row E.ch)) :
    evalAggregateCall P name args rows params = .ok (.int (.ofNat rows.length)) := by
  rw [evalAggregateCall, if_pos hbase]
  obtain rfl | rfl := hargs <;> rfl

theorem evalAggregateCall_collect {name : String} (hbase : aggregateBase name = ("collect", false)) (arg : Expr)
    {rows : List (Row E.ch)} {v : Value E.ch} (h : evalAggregateCall P name [arg] rows params = .ok v) :
    v = .json (.array (rows.flatMap (collected arg params))) := by
  have hcollect : evalAggregateCall P name [arg] rows params = collectAggregate P false [arg] rows params := by
    simp only [evalAggregateCall, hbase, String.reduceEq, if_false, if_true]
  rw [hcollect] at h
  obtain ⟨vals, hvals, hv⟩ := bind_eq_ok.mp h
  have hall := mapM_eq_ok.mp hvals
  rw [← Except.ok.inj hv, if_neg Bool.false_ne_true]
  refine congrArg (fun xs => Value.json (.array xs)) ?_
  clear hvals h hv hcollect
  induction hall with
  | nil => rfl
  | cons hrow _ ih =>
    rw [List.flatMap_cons, ← ih, collected, hrow, List.filter_cons]
    dsimp only
    split <;> simp_all

theorem sum_counts {gs : RowGroups E} {outs : List (Row E.ch)} {col : String}
    (h : List.Forall₂ (fun g r => r[col]? = some (.int (.ofNat g.2.rows.length))) gs outs)
    (hlt : (gs.flatMap fun g => g.2.rows).length < 2 ^ 63) :
    (outs.map (countIn col)).sum = ((gs.flatMap fun g => g.2.rows).length : Int) := by
  induction h with
  | nil => rfl
  | cons hr _ ih =>
    rw [List.flatMap_cons, List.length_append] at hlt ⊢
    rw [List.map_cons, List.sum_cons, ih (by omega), countIn, hr]
    dsimp only
    rw [Int64.toInt_ofNat_of_lt (by omega)]
    exact (Int.natCast_add _ _).symm

theorem concat_lists {gs : RowGroups E} {outs : List (Row E.ch)} {col : String} {f : Row E.ch → List Json}
    (h : List.Forall₂ (fun g r => r[col]? = some (.json (.array (g.2.rows.flatMap f)))) gs outs) :
    outs.flatMap (listIn col) = (gs.flatMap fun g => g.2.rows).flatMap f := by
  induction h with
  | nil => rfl
  | cons hr _ ih =>
    rw [List.flatMap_cons, List.flatMap_cons, List.flatMap_append, ih, listIn, hr]

/-! ## Two rows without a key -/

/-- `count(*) AS n`. -/
def rowCount : ReturnItem := ⟨.functionCall "count" [.star], some "n"⟩

theorem isAggregateName_countCall : isAggregateName "count" = true := by decide +kernel

theorem execProject_rowCount :
    execProject (.bare .debug) (.ok [∅, ∅]) [rowCount] ⟨false, [], none, none⟩ ∅ =
      .ok [(∅ : Row Engine.bare.ch).insert "n" (.int 2)] := by
  have hknown : ("count".toLower ∈ knownFunctions) := by decide +kernel
  have hbase : aggregateBase "count" = ("count", false) := by decide +kernel
  have hagg : exprHasAggregate rowCount.expr = true := by
    rw [exprHasAggregate_eq]
    exact Bool.or_eq_true_iff.mpr (.inl isAggregateName_countCall)
  have hval : validateFunctionNames rowCount.expr = .ok () := by
    rw [rowCount, validateFunctionNames, if_pos hknown]
    rfl
  have hcall : ∀ keyRow, evalWithAgg Engine.bare (evalAggregateCall (.bare .debug)) [∅, ∅] keyRow ∅ rowCount.expr =
      .ok (.int 2) := by
    intro keyRow
    rw [rowCount, evalWithAgg_aggregate isAggregateName_countCall, evalAggregateCall_count (by rw [hbase]) (.inr rfl)]
    rfl
  have hkey : ∀ row : Row Engine.bare.ch, groupKey (.bare .debug) row ∅ [rowCount].zipIdx ∅ = .ok (∅, []) := by
    intro row
    simp only [List.zipIdx_cons, List.zipIdx_nil, groupKey, hagg, if_true]
  have hgroups : clauseGroups (.bare .debug) [∅, ∅] [rowCount] ∅ = .ok [("", ⟨∅, [∅, ∅], ∅⟩)] := by
    simp only [clauseGroups, groupRows, hkey, Fallible.ok_bind, addToGroup, if_true]
    rfl
  have hpass : ∀ keys, passesAmbiguityCheck String.toLower keys rowCount.expr = true := by
    intro keys
    rw [passesAmbiguityCheck, rowCount, collectFreeVarRefs, if_pos isAggregateName_countCall]
    rfl
  have hcheck : checkAmbiguity (.bare .debug) [rowCount] [] = .ok () := by
    simp only [checkAmbiguity, List.all_cons, hagg]
    rw [show (ProjectionParts.bare .debug).toLowercase = String.toLower from rfl, hpass]
    rfl
  have hproject : projectGroup (.bare .debug) ⟨∅, [∅, ∅], ∅⟩ ∅ [rowCount].zipIdx ∅ =
      .ok ((∅ : Row Engine.bare.ch).insert "n" (.int 2)) := by
    simp only [List.zipIdx_cons, List.zipIdx_nil, projectGroup, hcall, Fallible.ok_bind]
    rfl
  have heach : ([rowCount].forM fun item => validateFunctionNames item.expr) = .ok () := by
    change (validateFunctionNames rowCount.expr >>= fun _ => .ok ()) = _
    rw [hval]
    rfl
  simp only [execProject, execProjectAggregate, heach, List.any_cons, hagg, Bool.true_or, if_true, hcheck, hgroups,
    List.mapM_cons, List.mapM_nil, hproject, Fallible.ok_bind]
  rfl

end GroupingAux

open GroupingAux

/-- A clause with aggregates over some rows makes a row for each text of a grouping key that one of the rows has, and computes
it over all rows of that key, in their order. -/
theorem grouped_rows {E : Engine} {P : ProjectionParts E} {rows : List (Row E.ch)} {items : List ReturnItem} {params : Params}
    {orderBy : List OrderItem} {out : List (Row E.ch)} (hagg : (items.any fun item => exprHasAggregate item.expr) = true)
    (hrows : rows ≠ []) (h : execProject P (.ok rows) items ⟨false, orderBy, none, none⟩ params = .ok out) :
    ∃ keys outs, keys.Nodup ∧ (∀ row ∈ rows, ∃ k ∈ keys, keyText P items params row = some k) ∧ out.Perm outs ∧
      List.Forall₂ (fun k r => ∃ g : RowGroup E, g.rows = (rows.filter fun row => keyText P items params row = some k) ∧
        g.rows.head? = some g.firstRow ∧ keyedRow P items params g.firstRow = .ok (k, g.keyRow, g.firstRow) ∧
        projectGroup P g params items.zipIdx ∅ = .ok r) keys outs := by
  obtain ⟨gs, outs, hgroups, hall, hperm⟩ := execProject_groups hagg h
  have hparted : PartedByKey P items params rows gs := hgroups.resolve_right fun h => hrows h.1
  refine ⟨gs.map Prod.fst, outs, hparted.keys_nodup, fun row hrow => ?_, hperm, ?_⟩
  · obtain ⟨g, hg, hmem⟩ := List.mem_flatMap.mp (hparted.perm.symm.subset hrow)
    rw [hparted.rows_eq g hg, List.mem_filter] at hmem
    exact ⟨g.1, List.mem_map_of_mem hg, by simpa using hmem.2⟩
  · rw [List.forall₂_map_left_iff]
    have hmem : List.Forall₂ (fun g r => g ∈ gs ∧ projectGroup P g.2 params items.zipIdx ∅ = .ok r) gs outs :=
      List.forall₂_iff_zip.mpr ⟨hall.length_eq, fun hzip =>
        ⟨List.of_mem_zip hzip |>.1, (List.forall₂_iff_zip.mp hall).2 hzip⟩⟩
    exact hmem.imp fun g r hr => ⟨g.2, hparted.rows_eq g hr.1, hparted.first g hr.1, hparted.key g hr.1, hr.2⟩

/-- Two rows without a key make one row. -/
theorem grouped_rows_of_two :
    ∃ (keys : List String) (outs : List (Row Engine.bare.ch)), keys.Nodup ∧
      [(∅ : Row Engine.bare.ch).insert "n" (.int 2)].Perm outs ∧ keys.length = outs.length := by
  have hagg : ([rowCount].any fun item => exprHasAggregate item.expr) = true := by
    rw [List.any_cons, exprHasAggregate_eq]
    exact Bool.or_eq_true_iff.mpr (.inl (Bool.or_eq_true_iff.mpr (.inl isAggregateName_countCall)))
  obtain ⟨keys, outs, hnodup, -, hperm, hall⟩ := grouped_rows hagg (by simp) execProject_rowCount
  exact ⟨keys, outs, hnodup, hperm, hall.length_eq⟩

/-- Over the rows of a clause with columns of different names, what an item `count(*)` counts adds up to the number of the input
rows, and the lists of an item `collect` are together what its argument is in the input rows. -/
theorem groups_account_for_rows {E : Engine} {P : ProjectionParts E} {rows : List (Row E.ch)} {items : List ReturnItem}
    {params : Params} {orderBy : List OrderItem} {out : List (Row E.ch)} (hnodup : (columnNames P.floatText items).Nodup)
    (hlt : rows.length < 2 ^ 63) {item : ReturnItem} {idx : Nat} (hitem : (item, idx) ∈ items.zipIdx) {name : String}
    (hname : isAggregateName name = true)
    (h : execProject P (.ok rows) items ⟨false, orderBy, none, none⟩ params = .ok out) :
    (((aggregateBase name).1 = "count" ∧ (item.expr = .functionCall name [] ∨ item.expr = .functionCall name [.star])) →
      (out.map (countIn (columnKey P.floatText item idx))).sum = rows.length) ∧
    ∀ arg, aggregateBase name = ("collect", false) → item.expr = .functionCall name [arg] →
      (out.flatMap (listIn (columnKey P.floatText item idx))).Perm (rows.flatMap (collected arg params)) := by
  have hcall : ∀ {args : List Expr}, item.expr = .functionCall name args →
      (items.any fun item => exprHasAggregate item.expr) = true := by
    intro args hexpr
    refine List.any_eq_true.mpr ⟨item, List.fst_mem_of_mem_zipIdx hitem, ?_⟩
    rw [hexpr, exprHasAggregate_eq]
    exact Bool.or_eq_true_iff.mpr (.inl hname)
  constructor
  · rintro ⟨hbase, hexpr⟩
    obtain ⟨args, hargs, hexpr⟩ : ∃ args, (args = [] ∨ args = [Expr.star]) ∧ item.expr = .functionCall name args :=
      hexpr.elim (fun h => ⟨_, .inl rfl, h⟩) fun h => ⟨_, .inr rfl, h⟩
    obtain ⟨gs, outs, hgroups, hall, hperm⟩ := execProject_groups (hcall hexpr) h
    have hcounts : List.Forall₂ (fun g r => r[columnKey P.floatText item idx]? =
        some (.int (.ofNat g.2.rows.length))) gs outs := by
      refine (item_of_groups hnodup hall hitem).imp fun g r hr => ?_
      obtain ⟨v, hv, hcol⟩ := hr
      rw [hexpr, evalWithAgg_aggregate hname, evalAggregateCall_count hbase hargs] at hv
      rw [hcol, Except.ok.inj hv]
    have hlen := hgroups.perm.length_eq
    rw [(hperm.map _).sum_eq, sum_counts hcounts (hlen ▸ hlt), hlen]
  · intro arg hbase hexpr
    obtain ⟨gs, outs, hgroups, hall, hperm⟩ := execProject_groups (hcall hexpr) h
    have hlists : List.Forall₂ (fun g r => r[columnKey P.floatText item idx]? =
        some (.json (.array (g.2.rows.flatMap (collected arg params))))) gs outs := by
      refine (item_of_groups hnodup hall hitem).imp fun g r hr => ?_
      obtain ⟨v, hv, hcol⟩ := hr
      rw [hexpr, evalWithAgg_aggregate hname] at hv
      rw [hcol, evalAggregateCall_collect hbase arg hv]
    refine (hperm.flatMap_right _).trans ?_
    rw [concat_lists hlists]
    exact hgroups.perm.flatMap_right _

/-- Two rows are counted as two. -/
theorem groups_account_for_two_rows :
    ([(∅ : Row Engine.bare.ch).insert "n" (.int 2)].map (countIn "n")).sum = 2 := by
  have hbase : aggregateBase "count" = ("count", false) := by decide +kernel
  have hitem : (rowCount, 0) ∈ [rowCount].zipIdx := by simp [List.zipIdx]
  exact (groups_account_for_rows (by decide) (by decide) hitem isAggregateName_countCall execProject_rowCount).1
    ⟨by rw [hbase], .inr rfl⟩

end PgEddy
