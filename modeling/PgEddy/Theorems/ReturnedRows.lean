import PgEddy.Lemmas.AggregateCalls
import PgEddy.Lemmas.Projections
import PgEddy.Theorems.PlainOrder

/-!
# The rows that are returned

Behind the items of a clause its rows are ordered, rows that were seen are dropped, some are skipped and no more than a number of
them are kept. Where `ORDER BY` goes by plain values, the rows are the stable sort of the projected ones, and what is returned is
a window of it.
-/

namespace PgEddy

open Fallible FirstSeen StableSort ProjectionAux PlainOrderAux

/-! ## The order of rows -/

section

variable {E : Engine} (P : ProjectionParts E)

/-- The value of an expression in a row, and null where there is none. -/
def valueOf {α : Type} (orderValue : Expr → α → Exec (Value E.ch)) (e : Expr) (a : α) : Value E.ch :=
  match orderValue e a with
  | .ok v => v
  | .error _ => .null

/-- The order of two rows: the first item of `ORDER BY` that tells them apart decides. -/
def rowOrder {α : Type} (orderValue : Expr → α → Exec (Value E.ch)) : List OrderItem → α → α → Ordering
  | [], _, _ => .eq
  | item :: items, a, b =>
    let o := orderOf P.calendar (valueOf orderValue item.expr a) (valueOf orderValue item.expr b)
    (if item.ascending then o else o.swap).then (rowOrder orderValue items a b)

/-- The rows before `ORDER BY`, each with the row it was made of. -/
def projectedRows (rows : List (Row E.ch)) (items : List ReturnItem) (params : Params) : Exec (List (Row E.ch × Row E.ch)) :=
  rows.mapM fun row => do return (← projectItems P row params items.zipIdx ∅, row)

end

namespace ReturnAux

variable {E : Engine} {P : ProjectionParts E}

/-- By plain values the rows are in an order. -/
theorem compareRows_orders {α : Type} {S : α → Prop} {orderValue : Expr → α → Exec (Value E.ch)} {orderBy : List OrderItem}
    (h : ∀ item ∈ orderBy, ∀ a, S a → ∃ v, orderValue item.expr a = .ok v ∧ PlainValue v) :
    OrdersOn (compareRows P orderValue orderBy) (rowOrder P orderValue orderBy) S := by
  induction orderBy with
  | nil => exact ⟨fun _ _ _ _ => rfl, fun _ _ _ _ => rfl, fun _ _ _ _ _ _ _ _ => rfl⟩
  | cons item items ih =>
    obtain ⟨hitem, hitems⟩ := List.forall_mem_cons.mp h
    have hvalue : ∀ a, S a → orderValue item.expr a = .ok (valueOf orderValue item.expr a) ∧
        PlainValue (valueOf orderValue item.expr a) := by
      intro a ha
      obtain ⟨v, hv, hplain⟩ := hitem a ha
      rw [valueOf, hv]
      exact ⟨rfl, hplain⟩
    have hkeyed := (plainValue_orders P.calendar).keyed (S := S) fun a ha => (hvalue a ha).2
    have hcompare : ∀ a b, S a → S b → compareRows P orderValue (item :: items) a b =
        (if orderOf P.calendar (valueOf orderValue item.expr a) (valueOf orderValue item.expr b) = .eq then
          compareRows P orderValue items a b
        else .ok (if item.ascending then orderOf P.calendar (valueOf orderValue item.expr a) (valueOf orderValue item.expr b)
          else (orderOf P.calendar (valueOf orderValue item.expr a) (valueOf orderValue item.expr b)).swap)) := by
      intro a b ha hb
      rw [compareRows, (hvalue a ha).1, (hvalue b hb).1]
      simp only [ok_bind, hkeyed.answers a b ha hb]
      cases orderOf P.calendar (valueOf orderValue item.expr a) (valueOf orderValue item.expr b) <;> rfl
    by_cases hasc : item.ascending = true
    · refine (hkeyed.lex (ih hitems)).congr (fun a b ha hb => ?_) fun a b _ _ => ?_
      · rw [hcompare a b ha hb, hkeyed.answers a b ha hb, hasc]
        rfl
      · rw [rowOrder, hasc]
        rfl
    · rw [Bool.not_eq_true] at hasc
      refine (hkeyed.turned.lex (ih hitems)).congr (fun a b ha hb => ?_) fun a b _ _ => ?_
      · rw [hcompare a b ha hb, hkeyed.answers a b ha hb, hasc]
        cases orderOf P.calendar (valueOf orderValue item.expr a) (valueOf orderValue item.expr b) <;> rfl
      · rw [rowOrder, hasc]
        rfl

/-- The rows in their order. -/
theorem orderRows_spec {orderValue : Expr → Row E.ch × Row E.ch → Exec (Value E.ch)} {orderBy : List OrderItem} {params : Params}
    {projected ordered : List (Row E.ch × Row E.ch)} (h : orderRows P orderValue orderBy params projected = .ok ordered)
    (horder : OrdersOn (compareRows P orderValue orderBy) (rowOrder P orderValue orderBy) (· ∈ projected)) :
    StablySorted (rowOrder P orderValue orderBy) projected ordered := by
  cases orderBy with
  | nil =>
    rw [orderRows] at h
    rw [← Except.ok.inj h]
    exact ⟨List.Perm.refl _, List.pairwise_of_forall fun _ _ => rfl, fun _ _ => rfl⟩
  | cons item items =>
    cases projected with
    | nil =>
      have hnil : orderRows P orderValue (item :: items) params [] = .ok [] := rfl
      rw [hnil] at h
      rw [← Except.ok.inj h]
      exact ⟨List.Perm.refl _, List.Pairwise.nil, fun _ _ => rfl⟩
    | cons first rest =>
      obtain ⟨-, -, hsort⟩ := bind_eq_ok.mp h
      obtain ⟨sorted, hsorted, hstable⟩ := sortBy_spec horder fun (p : Row E.ch × Row E.ch) (hp : p ∈ first :: rest) => hp
      rw [hsorted] at hsort
      rw [← Except.ok.inj hsort]
      exact hstable

/-- What `DISTINCT` leaves. -/
def keptRows (P : ProjectionParts E) (distinct : Bool) (ordered : List (Row E.ch × Row E.ch)) : List (Row E.ch × Row E.ch) :=
  if distinct then retainNew (fun p => rowFingerprint P p.1) ordered [] else ordered

/-- The window that `SKIP` and `LIMIT` leave open. -/
def window {α : Type} (skip limit : Option Nat) (rows : List α) : List α :=
  limit.elim (rows.drop (skip.getD 0)) fun n => (rows.drop (skip.getD 0)).take n

theorem window_eq {α : Type} (skip limit : Option Nat) (rows : List α) :
    limit.elim (skip.elim rows fun n => rows.drop n) (fun n => (skip.elim rows fun n => rows.drop n).take n) =
      window skip limit rows := by
  cases skip <;> simp [window]

theorem finishRows_eq_ok {orderValue : Expr → Row E.ch × Row E.ch → Exec (Value E.ch)} {t : ReturnTail} {params : Params}
    {projected : List (Row E.ch × Row E.ch)} {out : List (Row E.ch)} :
    finishRows P orderValue t params projected = .ok out ↔
      ∃ ordered skip limit, orderRows P orderValue t.orderBy params projected = .ok ordered ∧
        evalBound E t.skip params = .ok skip ∧ evalBound E t.limit params = .ok limit ∧
        out = (window skip limit (keptRows P t.distinct ordered)).map Prod.fst := by
  constructor
  · intro h
    obtain ⟨ordered, hordered, h⟩ := bind_eq_ok.mp h
    obtain ⟨skip, hskip, h⟩ := bind_eq_ok.mp h
    obtain ⟨limit, hlimit, h⟩ := bind_eq_ok.mp h
    refine ⟨ordered, skip, limit, hordered, hskip, hlimit, ?_⟩
    rw [← window_eq]
    exact (Except.ok.inj h).symm
  · rintro ⟨ordered, skip, limit, hordered, hskip, hlimit, rfl⟩
    rw [finishRows, hordered, ok_bind, hskip, ok_bind, hlimit, ok_bind]
    exact congrArg (fun rows => Except.ok (List.map Prod.fst rows)) (window_eq skip limit _)

/-- A clause without aggregates projects its rows, and finishes them. -/
theorem execProject_plain {rows : List (Row E.ch)} {items : List ReturnItem} {t : ReturnTail} {params : Params}
    (hagg : (items.any fun item => exprHasAggregate item.expr) = false) :
    execProject P (.ok rows) items t params = (do
      items.forM fun item => validateFunctionNames item.expr
      t.orderBy.forM fun o => validateFunctionNames o.expr
      finishRows P (orderValue params) t params (← projectedRows P rows items params)) := by
  rw [execProject]
  simp only [ok_bind, hagg, Bool.false_eq_true, if_false]
  rfl

/-! ## Two rows of one variable -/

def rowOf (n : Int64) : Row Engine.bare.ch := (∅ : Row Engine.bare.ch).insert "x" (.int n)

/-- `x`. -/
def returnX : ReturnItem := ⟨.var "x", none⟩

theorem evalExpr_rowOf (n : Int64) (params : Params) : evalExpr Engine.bare (.var "x") (rowOf n) params = .ok (.int n) := by
  rw [evalExpr, rowOf, Std.ExtTreeMap.getElem?_insert_self]

theorem exprHasAggregate_returnX : ([returnX].any fun item => exprHasAggregate item.expr) = false := by
  rw [List.any_cons, List.any_nil, exprHasAggregate_eq]
  rfl

theorem projectedRows_returnX :
    projectedRows (.bare .debug) [rowOf 2, rowOf 1] [returnX] ∅ = .ok [(rowOf 2, rowOf 2), (rowOf 1, rowOf 1)] := by
  have hitem : ∀ n, projectItems (.bare .debug) (rowOf n) ∅ [returnX].zipIdx ∅ = .ok (rowOf n) := by
    intro n
    have hcol : columnKey (ProjectionParts.bare .debug).floatText returnX 0 = "x" := by
      simp [columnKey, returnX, exprDefaultName]
    simp only [List.zipIdx_cons, List.zipIdx_nil, projectItems, hcol]
    simp only [returnX, evalExpr_rowOf, ok_bind]
    rfl
  simp only [projectedRows, List.mapM_cons, List.mapM_nil, hitem, ok_bind]
  rfl

theorem execProject_returnX :
    execProject (.bare .debug) (.ok [rowOf 2, rowOf 1]) [returnX] ⟨false, [⟨.var "x", true⟩], none, none⟩ ∅ =
      .ok [rowOf 1, rowOf 2] := by
  have hvalue : ∀ n, @orderValue Engine.bare ∅ (.var "x") (rowOf n, rowOf n) = .ok (.int n) := by
    intro n
    rw [orderValue, evalExpr_rowOf]
    rfl
  have hcheck : @checkOrderBy Engine.bare ∅ (rowOf 2, rowOf 2) [⟨.var "x", true⟩] = .ok () := by
    rw [checkOrderBy, evalExpr_rowOf]
    rfl
  have hcompare : compareRows (.bare .debug) (orderValue ∅) [⟨.var "x", true⟩] (rowOf 2, rowOf 2)
    (rowOf 1, rowOf 1) = .ok .gt := by
    rw [compareRows, hvalue, hvalue]
    decide
  have horder : orderRows (.bare .debug) (orderValue ∅) [⟨.var "x", true⟩] ∅ [(rowOf 2, rowOf 2), (rowOf 1, rowOf 1)] =
      .ok [(rowOf 1, rowOf 1), (rowOf 2, rowOf 2)] := by
    simp only [orderRows, hcheck, sortBy, insertSorted, ok_bind, hcompare]
    rfl
  rw [execProject_plain exprHasAggregate_returnX, projectedRows_returnX]
  simp only [returnX, ok_bind, finishRows, horder]
  rfl

end ReturnAux

open ReturnAux

/-- Where `ORDER BY` goes by plain values, the rows that `SKIP` and `LIMIT` are counted on go up in the order of the clause. Without
`DISTINCT` they are the stable sort of the projected rows. With it they are projected rows of different texts, and each projected
row has the text of one of them that is not behind it. -/
theorem returned_rows {E : Engine} {P : ProjectionParts E} {rows : List (Row E.ch)} {items : List ReturnItem} {t : ReturnTail}
    {params : Params} {out : List (Row E.ch)} {projected : List (Row E.ch × Row E.ch)}
    (hagg : (items.any fun item => exprHasAggregate item.expr) = false)
    (hprojected : projectedRows P rows items params = .ok projected)
    (hplain : ∀ o ∈ t.orderBy, ∀ p ∈ projected, ∃ v, orderValue params o.expr p = .ok v ∧ PlainValue v)
    (h : execProject P (.ok rows) items t params = .ok out) :
    ∃ kept skip limit, evalBound E t.skip params = .ok skip ∧ evalBound E t.limit params = .ok limit ∧
      out = (window skip limit kept).map Prod.fst ∧
      (kept.Pairwise fun p q => (rowOrder P (orderValue params) t.orderBy p q).isLE) ∧
      (t.distinct = false → StablySorted (rowOrder P (orderValue params) t.orderBy) projected kept) ∧
      (t.distinct = true → kept ⊆ projected ∧ (kept.map fun p => rowFingerprint P p.1).Nodup ∧
        ∀ p ∈ projected, ∃ q ∈ kept, rowFingerprint P q.1 = rowFingerprint P p.1 ∧
          (rowOrder P (orderValue params) t.orderBy q p).isLE) := by
  rw [execProject_plain hagg, hprojected] at h
  obtain ⟨-, -, h⟩ := bind_eq_ok.mp h
  obtain ⟨-, -, hfinish⟩ := bind_eq_ok.mp h
  obtain ⟨ordered, skip, limit, hordered, hskip, hlimit, rfl⟩ := finishRows_eq_ok.mp hfinish
  have horder := compareRows_orders (P := P) (S := (· ∈ projected)) hplain
  have hsorted := orderRows_spec hordered horder
  refine ⟨keptRows P t.distinct ordered, skip, limit, hskip, hlimit, rfl, ?_, fun hdistinct => ?_, fun hdistinct => ?_⟩
  · unfold keptRows
    split
    · exact hsorted.ascending.sublist (retainNew_sublist ordered [])
    · exact hsorted.ascending
  · rw [hdistinct]
    exact hsorted
  · rw [hdistinct]
    refine ⟨fun p hp => ?_, nodup_retainNew ordered [], fun p hp => ?_⟩
    · exact hsorted.perm.subset ((retainNew_sublist ordered []).subset hp)
    · refine retainNew_first hsorted.ascending (fun q hq => ?_) (hsorted.perm.symm.subset hp) (by simp)
      rw [horder.refl (hsorted.perm.subset hq)]
      rfl

/-- Two rows, by their variable. -/
theorem returned_rows_of_two :
    ∃ kept, [rowOf 1, rowOf 2] = kept.map Prod.fst ∧
      StablySorted (rowOrder (.bare .debug) (orderValue ∅) [⟨.var "x", true⟩]) [(rowOf 2, rowOf 2), (rowOf 1, rowOf 1)] kept := by
  have hplain : ∀ o ∈ [(⟨.var "x", true⟩ : OrderItem)], ∀ p ∈ [(rowOf 2, rowOf 2), (rowOf 1, rowOf 1)],
      ∃ v, @orderValue Engine.bare ∅ o.expr p = .ok v ∧ PlainValue v := by
    intro o ho p hp
    rw [List.mem_singleton.mp ho]
    simp only [List.mem_cons, List.not_mem_nil, or_false] at hp
    obtain rfl | rfl := hp
    · refine ⟨.int 2, ?_, ?_⟩
      · rw [orderValue, evalExpr_rowOf]
        rfl
      · change (2 : Int64).toInt.natAbs < 2 ^ 53
        decide
    · refine ⟨.int 1, ?_, ?_⟩
      · rw [orderValue, evalExpr_rowOf]
        rfl
      · change (1 : Int64).toInt.natAbs < 2 ^ 53
        decide
  obtain ⟨kept, skip, limit, hskip, hlimit, hout, -, hsorted, -⟩ :=
    returned_rows exprHasAggregate_returnX projectedRows_returnX hplain execProject_returnX
  obtain rfl := Except.ok.inj hskip
  obtain rfl := Except.ok.inj hlimit
  exact ⟨kept, hout, hsorted rfl⟩

/-! ## Pages -/

namespace ReturnAux

variable {E : Engine} {P : ProjectionParts E}

/-- A run that depends on `SKIP` and `LIMIT` only in the window that it shows of some rows. -/
def ShowsWindow (params : Params) (run : Option Expr → Option Expr → Exec (List (Row E.ch))) : Prop :=
  ∃ kept : Exec (List (Row E.ch × Row E.ch)), ∀ skip limit, run skip limit = (do
    let kept ← kept
    return (window (← evalBound E skip params) (← evalBound E limit params) kept).map Prod.fst)

theorem ShowsWindow.bind {α : Type} {params : Params} {m : Exec α} {run : α → Option Expr → Option Expr → Exec (List (Row E.ch))}
    (h : ∀ a, ShowsWindow params (run a)) : ShowsWindow params fun skip limit => m >>= fun a => run a skip limit := by
  cases m with
  | error f => exact ⟨.error f, fun _ _ => rfl⟩
  | ok a => exact h a

theorem finishRows_showsWindow (orderValue : Expr → Row E.ch × Row E.ch → Exec (Value E.ch)) (distinct : Bool)
    (orderBy : List OrderItem) (params : Params) (projected : List (Row E.ch × Row E.ch)) :
    ShowsWindow params fun skip limit => finishRows P orderValue ⟨distinct, orderBy, skip, limit⟩ params projected := by
  unfold finishRows
  dsimp only
  refine ShowsWindow.bind fun ordered => ⟨.ok (keptRows P distinct ordered), fun skip limit => ?_⟩
  rw [ok_bind]
  refine bind_congr fun s => bind_congr fun l => ?_
  rw [← window_eq]
  rfl

theorem execProject_showsWindow (input : Exec (List (Row E.ch))) (items : List ReturnItem) (distinct : Bool)
    (orderBy : List OrderItem) (params : Params) :
    ShowsWindow params fun skip limit => execProject P input items ⟨distinct, orderBy, skip, limit⟩ params := by
  unfold execProject
  dsimp only
  refine ShowsWindow.bind fun _ => ShowsWindow.bind fun _ => ShowsWindow.bind fun rows => ?_
  by_cases hagg : (items.any fun item => exprHasAggregate item.expr) = true
  · simp only [hagg, if_true]
    unfold execProjectAggregate
    dsimp only
    refine ShowsWindow.bind fun _ => ShowsWindow.bind fun groups => ShowsWindow.bind fun projected => ?_
    exact finishRows_showsWindow _ distinct orderBy params projected
  · simp only [hagg, Bool.false_eq_true, if_false]
    exact ShowsWindow.bind fun projected => finishRows_showsWindow _ distinct orderBy params projected

/-- A literal that is not negative is a bound. -/
theorem evalBound_intLit (E : Engine) {n : Nat} (h : n < 2 ^ 63) (params : Params) :
    evalBound E (some (.intLit (.ofNat n))) params = .ok (some n) := by
  have hn : (Int64.ofNat n).toInt = n := Int64.toInt_ofNat_of_lt h
  have hneg : ¬Int64.ofNat n < 0 := by
    rw [Int64.lt_iff_toInt_lt, hn]
    simp
  have heval : @evalConstUsize E (.intLit (.ofNat n)) params = .ok n := by
    simp only [evalConstUsize, evalExpr, orNull, ok_bind, hneg, if_false, hn, Int.toNat_natCast]
    rfl
  rw [evalBound, heval]
  rfl

theorem window_pages {α : Type} (rows : List α) (n m : Nat) :
    ((List.range m).map fun k => window (some (n * k)) (some n) rows).flatten = rows.take (n * m) := by
  induction m with
  | zero => simp
  | succ m ih =>
    rw [List.range_succ, List.map_append, List.flatten_append, ih, List.map_singleton, List.flatten_singleton]
    change rows.take (n * m) ++ (rows.drop (n * m)).take n = _
    rw [Nat.mul_succ, List.take_add]

end ReturnAux

end PgEddy
