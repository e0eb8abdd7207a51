import PgEddy.Lemmas.EvalSteps
import PgEddy.Substitution

/-!
# Substituting aliases

The rewritten condition of a `WITH` has in a row the value that the condition has in the row with the aliases, if no variable
that the condition binds hides an alias or is captured by an item, and nothing that the rewriting leaves alone reads an alias.
-/

namespace PgEddy

open Fallible RowAux

variable {E : Engine} {aliases : Std.ExtTreeMap String Expr}

theorem substitute_eq_mapChildren {e : Expr} (hvar : ∀ x, e ≠ .var x) :
    substituteAliasesInExpr aliases e = e.mapChildren (substituteAliasesInExpr aliases) := by
  cases e with
  | var x => exact absurd rfl (hvar x)
  | functionCall name args => exact congrArg (Expr.functionCall name) (substituteEach_eq_map args)
  | list items => exact congrArg Expr.list (substituteEach_eq_map items)
  | mapLiteral pairs => exact congrArg Expr.mapLiteral (substitutePairs_eq_map pairs)
  | caseSearched branches else_ =>
    rw [Expr.mapChildren, ← substituteBranches_eq_map]
    cases else_ <;> rfl
  | caseSimple test branches else_ =>
    rw [Expr.mapChildren, ← substituteBranches_eq_map]
    cases else_ <;> rfl
  | listComprehension x listExpr predicate projection => cases predicate <;> cases projection <;> rfl
  | listSlice listExpr from_ to_ => cases from_ <;> cases to_ <;> rfl
  | _ => rfl

/-! ## Variables of an expression -/

/-- A variable occurs free in an expression, outside its patterns and queries. -/
inductive Mentions (x : String) : Expr → Prop
  | var : Mentions x (.var x)
  | outer {e c : Expr} : c ∈ e.outer → Mentions x c → Mentions x e
  | body {e c : Expr} : c ∈ e.body → e.binder ≠ some x → Mentions x c → Mentions x e

/-- An expression without patterns, queries and `*`. -/
inductive Patternless : Expr → Prop
  | mk {e : Expr} : e.isOpaque = false → (∀ c ∈ e.children, Patternless c) → Patternless e

/-- An expression without patterns and queries depends on the variables that occur free in it. -/
theorem Patternless.dependsOn {e : Expr} (h : Patternless e) : DependsOn E (Mentions · e) e := by
  induction e using Expr.childInduct with
  | step e ih =>
    obtain ⟨hclosed, hchildren⟩ := h
    refine dependsOn_parts (fun h => absurd (hclosed.symm.trans h) Bool.false_ne_true) (fun x hx => hx ▸ .var)
      (fun c hc => ?_) fun x hx c hc => ?_
    · have hc' := Expr.mem_children.mpr (.inl hc)
      exact (ih c hc' (hchildren c hc')).mono fun y hy => .outer hc hy
    · have hc' := Expr.mem_children.mpr (.inr hc)
      refine (ih c hc' (hchildren c hc')).mono fun y hy => or_iff_not_imp_right.mpr fun hne => ?_
      exact .body hc (fun h => hne (Option.some.inj (h.symm.trans hx))) hy

/-- An expression without patterns and queries where a variable does not occur free is the same for all its values. -/
theorem Patternless.dependsOn_ne {e : Expr} (h : Patternless e) {x : String} (hx : ¬Mentions x e) : DependsOn E (· ≠ x) e :=
  h.dependsOn.mono fun _ hy heq => hx (heq ▸ hy)

/-! ## Nothing is captured -/

variable (E aliases)

/-- Binding a variable leaves what stands for an alias as it is. -/
def Survives (x a : String) (item : Expr) : Prop := if a = x then item = .var x else DependsOn E (· ≠ x) item

/-- The rewriting of this expression, its parts aside, is safe. -/
structure ClearHere (e : Expr) : Prop where
  /-- What is left alone does not depend on the aliases. -/
  opaque_ : e.isOpaque = true → DependsOn E (fun x => aliases[x]? = none) e
  /-- A function that looks at the name of an argument is not given an alias. -/
  names : ∀ name args, e = .functionCall name args → (∀ x, .var x ∈ args → aliases[x]? = none ∨ aliases[x]? = some (.var x)) ∨
    ∀ names names', callFunction E name names = callFunction E name names'
  /-- A variable bound here hides no alias, and no item reads it. -/
  binder : ∀ x, e.binder = some x → ∀ c ∈ e.body, ∀ a item, aliases[a]? = some item → Mentions a c → Survives E x a item

/-- The rewriting of an expression is safe everywhere in it. -/
inductive Clear : Expr → Prop
  | mk {e : Expr} : ClearHere E aliases e → (∀ c ∈ e.children, Clear c) → Clear e

/-- The rows agree on what is no alias, and the aliases of a set have in one the values of their items in the other. -/
structure Rewritten (N : String → Prop) (params : Params) (row row' : Row E.ch) : Prop where
  others : ∀ x : String, aliases[x]? = none → row[x]? = row'[x]?
  bound : ∀ (x : String) (item : Expr), aliases[x]? = some item → N x →
    ∃ v, evalExpr E item row params = .ok v ∧ row'[x]? = some v

variable {E aliases}

theorem Rewritten.mono {N M : String → Prop} {params : Params} {row row' : Row E.ch} (h : Rewritten E aliases N params row row')
    (hMN : ∀ x, M x → N x) : Rewritten E aliases M params row row' :=
  ⟨h.others, fun x item hx hm => h.bound x item hx (hMN x hm)⟩

/-- Under a variable that every item survives, the rows with the variable bound are related as those without. -/
theorem Rewritten.insert {N M : String → Prop} {params : Params} {row row' : Row E.ch} (h : Rewritten E aliases N params row row')
    {x : String} (hMN : ∀ a, M a → a ≠ x → N a) (hsurvives : ∀ a item, aliases[a]? = some item → M a → Survives E x a item)
    (v : Value E.ch) : Rewritten E aliases M params (row.insert x v) (row'.insert x v) := by
  refine ⟨fun y hy => ?_, fun a item ha hm => ?_⟩
  · rw [get_insert, get_insert, h.others y hy]
  · have hs := hsurvives a item ha hm
    unfold Survives at hs
    split at hs
    next heq =>
      subst heq hs
      exact ⟨v, by rw [evalExpr_var, get_insert_self], get_insert_self row' a v⟩
    next hne =>
      obtain ⟨w, hw, hrow'⟩ := h.bound a item ha (hMN a hm hne)
      refine ⟨w, ?_, (get_insert_of_ne (Ne.symm hne)).trans hrow'⟩
      rw [← hw]
      exact hs params _ _ fun y hy => get_insert_of_ne (Ne.symm hy)

theorem callFunction_substitute {name : String} {args : List Expr} (h : ClearHere E aliases (.functionCall name args)) :
    callFunction E name (argNames (args.map (substituteAliasesInExpr aliases))) = callFunction E name (argNames args) := by
  obtain hargs | hname := h.names name args rfl
  · refine congrArg (callFunction E name) ?_
    rw [argNames, argNames, List.map_map]
    refine List.map_congr_left fun arg harg => ?_
    by_cases hvar : ∃ x, arg = .var x
    · obtain ⟨x, rfl⟩ := hvar
      obtain hx | hx := hargs x harg <;> rw [Function.comp_apply, substituteAliasesInExpr, hx]
    · rw [Function.comp_apply, substitute_eq_mapChildren fun x hx => hvar ⟨x, hx⟩]
      cases arg with
      | var x => exact absurd ⟨x, rfl⟩ hvar
      | _ => rfl
  · exact hname _ _

/-- In rows related so, the rewritten expression has the value of the expression. -/
theorem Clear.eval {e : Expr} (hclear : Clear E aliases e) {params : Params} {row row' : Row E.ch}
    (hr : Rewritten E aliases (Mentions · e) params row row') :
    evalExpr E (substituteAliasesInExpr aliases e) row params = evalExpr E e row' params := by
  induction e using Expr.childInduct generalizing row row' with
  | step e ih =>
    obtain ⟨hhere, hchildren⟩ := hclear
    by_cases hvar : ∃ x, e = .var x
    · obtain ⟨x, rfl⟩ := hvar
      rw [substituteAliasesInExpr]
      cases hx : aliases[x]? with
      | none => rw [evalExpr_var, evalExpr_var, hr.others x hx]
      | some item =>
        obtain ⟨v, hv, hrow'⟩ := hr.bound x item hx .var
        rw [evalExpr_var, hrow']
        exact hv
    · have hvar' : ∀ x, e ≠ .var x := fun x hx => hvar ⟨x, hx⟩
      rw [substitute_eq_mapChildren hvar']
      cases hclosed : e.isOpaque with
      | true =>
        have he : e.mapChildren (substituteAliasesInExpr aliases) = e := by
          cases e with
          | star | shortestPath | patternComprehension | exists_ => rfl
          | _ => cases hclosed
        rw [he]
        exact hhere.opaque_ hclosed params row row' hr.others
      | false =>
        rw [evalExpr_eq_step, evalExpr_eq_step,
          evalStep_mapChildren hclosed hvar' fun name args heq => callFunction_substitute (heq ▸ hhere)]
        refine evalStep_congr hclosed hvar' (fun c hc => ?_) fun x hx c hc v => ?_
        · have hc' := Expr.mem_children.mpr (.inl hc)
          exact ih c hc' (hchildren c hc') (hr.mono fun y hy => .outer hc hy)
        · have hc' := Expr.mem_children.mpr (.inr hc)
          refine ih c hc' (hchildren c hc') (hr.insert (fun a ha hne => ?_) (hhere.binder x hx c hc) v)
          exact .body hc (fun h => hne (Option.some.inj (h.symm.trans hx))) ha

/-! ## The aliases of a `WITH` -/

/-- One more item keeps the rows related. -/
theorem Rewritten.bindAlias {N : String → Prop} {params : Params} {row r r' : Row E.ch} (h : Rewritten E aliases N params row r)
    {item : ReturnItemOf Expr} (hr' : bindAlias E row params r item = .ok r') :
    Rewritten E (addAlias aliases item) N params row r' := by
  unfold PgEddy.bindAlias at hr'
  unfold addAlias
  cases halias : item.alias_ with
  | none =>
    rw [halias] at hr'
    exact Except.ok.inj hr' ▸ h
  | some a =>
    rw [halias] at hr'
    obtain ⟨v, hv, hr'⟩ := bind_eq_ok.mp hr'
    cases hr'
    refine ⟨fun x hx => ?_, fun x e hx hN => ?_⟩ <;> simp only [get_insert] at hx ⊢ <;> split at hx
    · cases hx
    · next hne =>
      rw [if_neg hne]
      exact h.others x hx
    · next heq =>
      cases hx
      exact ⟨v, hv, if_pos heq⟩
    · next hne =>
      rw [if_neg hne]
      exact h.bound x e hx hN

/-- The row with the aliases has what no alias names from the row, and the value of its item for each alias. -/
theorem bindAliases_rewritten {items : List (ReturnItemOf Expr)} {row row' : Row E.ch} {params : Params}
    (h : bindAliases E row params items = .ok row') (N : String → Prop) : Rewritten E (aliasMap items) N params row row' := by
  have hrun : ∀ (items : List (ReturnItemOf Expr)) (aliases : Std.ExtTreeMap String Expr) (r : Row E.ch),
      Rewritten E aliases N params row r → items.foldlM (bindAlias E row params) r = .ok row' →
      Rewritten E (items.foldl addAlias aliases) N params row row' := by
    intro items
    induction items with
    | nil =>
      intro aliases r hr h
      exact Except.ok.inj h ▸ hr
    | cons item items ih =>
      intro aliases r hr h
      rw [List.foldlM_cons] at h
      obtain ⟨r', hr', h⟩ := bind_eq_ok.mp h
      exact ih _ r' (hr.bindAlias hr') h
  refine hrun items ∅ row ⟨fun x _ => rfl, fun x item hx => ?_⟩ h
  cases hx.symm.trans Std.ExtTreeMap.getElem?_empty

namespace AliasSubstitutionAux

/-- `WITH 2 AS x`. -/
def two : List (ReturnItemOf Expr) := [⟨.intLit 2, some "x"⟩]

/-- `any(y IN [1] WHERE y < x)`. -/
def anyBelow : Expr := .listPredicate .any "y" (.list [.intLit 1]) (.compare (.var "y") .lt (.var "x"))

/-- `any(x IN [1] WHERE x = 1)`. -/
def anyOne : Expr := .listPredicate .any "x" (.list [.intLit 1]) (.compare (.var "x") .eq (.intLit 1))

end AliasSubstitutionAux

open AliasSubstitutionAux

/-- A condition with a variable of its own that is no alias. -/
theorem anyBelow_clear (E : Engine) : Clear E (aliasMap two) anyBelow := by
  have hleaf : ∀ e : Expr, e.isOpaque = false → e.binder = none → (∀ name args, e ≠ .functionCall name args) →
      ClearHere E (aliasMap two) e := fun e ho hb hf =>
    ⟨fun h => absurd (ho.symm.trans h) Bool.false_ne_true, fun name args h => absurd h (hf name args), fun x h => by
      rw [hb] at h
      cases h⟩
  have hplain : ∀ e : Expr, e ∈ [Expr.intLit 1, .var "y", .var "x"] → Clear E (aliasMap two) e := by
    intro e he
    simp only [List.mem_cons, List.not_mem_nil, or_false] at he
    obtain rfl | rfl | rfl := he <;> exact .mk (hleaf _ rfl rfl (by simp)) (by simp [Expr.children])
  refine .mk ⟨fun h => (by cases h), fun name args h => (by cases h), fun x hx c hc a item ha hm => ?_⟩ fun c hc => ?_
  · cases hx
    have hax : a = "x" ∧ item = .intLit 2 := by
      simp only [aliasMap, two, List.foldl_cons, List.foldl_nil, addAlias, get_insert] at ha
      split at ha
      · next h => exact ⟨h.symm, (Option.some.inj ha).symm⟩
      · cases ha.symm.trans Std.ExtTreeMap.getElem?_empty
    obtain ⟨rfl, rfl⟩ := hax
    refine (if_neg (by decide)).mpr (Patternless.dependsOn_ne (.mk rfl (by simp [Expr.children])) fun h => ?_)
    cases h with
    | outer hc | body hc => cases hc
  · simp only [anyBelow, Expr.children, List.mem_cons, List.not_mem_nil, or_false] at hc
    obtain rfl | rfl := hc
    · exact .mk (hleaf _ rfl rfl (by simp)) fun c hc => hplain c (by simp_all [Expr.children])
    · exact .mk (hleaf _ rfl rfl (by simp)) fun c hc => hplain c (by simp_all [Expr.children])

end PgEddy
