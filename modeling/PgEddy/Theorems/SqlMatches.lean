import PgEddy.Lemmas.SqlPatterns
import PgEddy.Lemmas.Syntax

/-!
# The rows of a graph view

The query that a graph view is compiled to has a row for each choice of nodes and relationships that fit the patterns of all of its
`MATCH` clauses, in which places share a node or a relationship if and only if they share a variable, and of which every `WHERE` is
true. Each such choice gives one row.
-/

namespace PgEddy

open Fallible SqlCompiler SqlNameAux SqlStepAux SqlPatternAux

/-- The `WHERE`s of `MATCH` clauses, in order. -/
def matchWheres (clauses : List QueryClause) : List Expr :=
  clauses.flatMap fun
    | .match_ _ _ whereClause => whereClause.toList
    | _ => []

namespace SqlMatchAux

variable {J : Type} {B : Jsonb J} {m : Mirror J} {T : SqlTexts} {params : Params}

/-! ## Bindings that grow -/

/-- Bindings that have those of others. -/
def Grows (bindings bindings' : Std.ExtTreeMap String SqlAlias) : Prop :=
  ∀ (v : String) (a : SqlAlias), bindings[v]? = some a → bindings'[v]? = some a

variable {bindings bindings' : Std.ExtTreeMap String SqlAlias}

theorem compileFunction_mono (hle : Grows bindings bindings') {name : String} {arguments : List Expr} {j : SqlJson}
    (h : compileFunction bindings name arguments = .ok j) : compileFunction bindings' name arguments = .ok j := by
  unfold compileFunction at h ⊢
  split at h
  next v =>
    cases hb : bindings[v]? with
    | none =>
      rw [hb] at h
      split at h <;> simp_all
    | some a =>
      simp only [hb] at h
      simp only [hle v a hb]
      exact h
  next => cases h
  next => cases h

theorem compileJson_mono (hle : Grows bindings bindings') (e : Expr) : ∀ {j : SqlJson},
    compileJson T params bindings e = .ok j → compileJson T params bindings' e = .ok j := by
  induction e using Expr.childInduct with
  | step e ih =>
  intro j h
  cases e with
  | var v =>
    cases hb : bindings[v]? with
    | none =>
      rw [compileJson, hb] at h
      cases h
    | some a =>
      rw [compileJson, hb] at h
      rw [compileJson, hle v a hb]
      exact h
  | property inner key =>
    cases inner with
    | var v =>
      cases hb : bindings[v]? with
      | none =>
        rw [compileJson, hb] at h
        cases h
      | some a =>
        rw [compileJson, hb] at h
        rw [compileJson, hle v a hb]
        exact h
    | _ => cases h
  | functionCall name arguments =>
    unfold compileJson at h
    split at h
    next hname =>
      split at h
      next =>
        unfold compileJson
        rw [if_pos hname]
        exact h
      next arg hstar =>
        obtain ⟨inner, hinner, h⟩ := bind_eq_ok.mp h
        have harg : arg ∈ (Expr.functionCall name [arg]).children := by simp [Expr.children]
        rw [compileJson, if_pos hname, ih arg harg hinner]
        · exact h
        · exact hstar
      next => cases h
    next hname =>
      unfold compileJson
      rw [if_neg hname]
      exact compileFunction_mono hle h
  | intLit | floatLit | stringLit | boolLit | nullLit | parameter | list | mapLiteral =>
    unfold compileJson at h ⊢
    exact h
  | _ => cases h

theorem compileBoolean_mono (hle : Grows bindings bindings') (e : Expr) : ∀ {b : SqlBoolean},
    compileBoolean T params bindings e = .ok b → compileBoolean T params bindings' e = .ok b := by
  fun_induction compileBoolean T params bindings e with
  | case1 left op right =>
    intro b h
    obtain ⟨l, hl, h⟩ := bind_eq_ok.mp h
    obtain ⟨r, hr, h⟩ := bind_eq_ok.mp h
    rw [compileBoolean, compileJson_mono hle _ hl, compileJson_mono hle _ hr]
    exact h
  | case2 left right ihl ihr | case3 left right ihl ihr | case4 left right ihl ihr =>
    intro b h
    obtain ⟨l, hl, h⟩ := bind_eq_ok.mp h
    obtain ⟨r, hr, h⟩ := bind_eq_ok.mp h
    rw [compileBoolean, ihl hl, ihr hr]
    exact h
  | case5 inner ih =>
    intro b h
    obtain ⟨i, hi, h⟩ := bind_eq_ok.mp h
    rw [compileBoolean, ih hi]
    exact h
  | case6 inner | case7 inner =>
    intro b h
    obtain ⟨i, hi, h⟩ := bind_eq_ok.mp h
    rw [compileBoolean, compileJson_mono hle _ hi]
    exact h
  | case8 v labels i hv =>
    intro b h
    simp only [compileBoolean, hle v _ hv]
    exact h
  | case9 | case10 =>
    intro b h
    cases h
  | case11 e =>
    intro b h
    obtain ⟨i, hi, h⟩ := bind_eq_ok.mp h
    rw [compileBoolean, compileJson_mono hle _ hi]
    · exact h
    all_goals assumption

theorem idxOf?_append_of_some {vars : List (Option String)} {w : Option String} {i : Nat} (h : vars.idxOf? w = some i)
    (vars' : List (Option String)) : (vars ++ vars').idxOf? w = some i := by
  simp only [List.idxOf?, List.findIdx?_append] at h ⊢
  rw [h, Option.some_or]

/-- A variable keeps its table. -/
theorem bindings_grow {c c' : SqlCompiler} {nvars evars nvars' evars' : List (Option String)} (hc : Named c nvars evars)
    (hc' : Named c' (nvars ++ nvars') (evars ++ evars')) : Grows c.bindings c'.bindings := by
  intro v a h
  rw [hc.bindings] at h
  rw [hc'.bindings]
  rcases Option.or_eq_some_iff.mp h with h | ⟨-, h⟩
  · obtain ⟨i, hi, rfl⟩ := Option.map_eq_some_iff.mp h
    rw [tableOf, idxOf?_append_of_some hi]
    rfl
  · obtain ⟨i, hi, rfl⟩ := Option.map_eq_some_iff.mp h
    have hi' := idxOf?_append_of_some hi evars'
    have hnone : (nvars ++ nvars').idxOf? (some v) = none :=
      List.idxOf?_eq_none_iff.mpr fun hmem => hc'.kinds v hmem (List.mem_of_getElem? (getElem?_of_idxOf? hi'))
    rw [tableOf, hnone, hi']
    rfl

/-! ## Clauses -/

section

variable {nvars evars : List (Option String)} {bs : List SqlBoolean} {D F F' : List (IvmNode J) → List (IvmEdge J) → Prop}

theorem followedBy_congr (h : ∀ vs es, F vs es ↔ F' vs es) (vs : List (IvmNode J)) (es : List (IvmEdge J)) :
    followedBy D F vs es ↔ followedBy D F' vs es := by
  simp only [followedBy, h]

theorem patternsFit_append (ps qs : List Pattern) : ∀ (vs : List (IvmNode J)) (es : List (IvmEdge J)),
    patternsFit B m params (ps ++ qs) vs es ↔ followedBy (patternsFit B m params ps) (patternsFit B m params qs) vs es := by
  induction ps with
  | nil =>
    intro vs es
    constructor
    · intro h
      exact ⟨[], vs, [], es, rfl, rfl, ⟨rfl, rfl⟩, h⟩
    · rintro ⟨_, vs, _, es, rfl, rfl, ⟨rfl, rfl⟩, h⟩
      exact h
  | cons p ps ih =>
    intro vs es
    exact (followedBy_congr ih vs es).trans (followedBy_assoc vs es).symm

/-- A condition of a `WHERE` says nothing of the patterns. -/
theorem means_boolean {c : SqlCompiler} (h : Means B m c nvars evars bs D) (b : SqlBoolean) :
    Means B m { c with predicates := c.predicates ++ [.boolean b] } nvars evars (bs ++ [b]) D where
  named := { h.named with bounded := List.forall_mem_append.mpr ⟨h.named.bounded, fun p hp => by
    rw [List.mem_singleton.mp hp]
    trivial⟩ }
  booleans b' := by
    rw [List.mem_append, List.mem_append, h.booleans]
    simp
  numbered := h.numbered
  lengths := h.lengths
  solves_iff vs es := by
    rw [← h.solves_iff, Solves, Solves]
    refine and_congr_right fun _ => ?_
    rw [List.forall_mem_append]
    refine and_iff_left fun p hp hpattern => ?_
    rw [List.mem_singleton.mp hp] at hpattern
    cases hpattern

/-- A `MATCH`. -/
theorem means_clause {c c' : SqlCompiler} {clause : QueryClause} (h : Means B m c nvars evars bs D)
    (hplain : PlainPatterns (matchPatterns [clause])) (hcompile : compileMatch T params c clause = .ok c') :
    ∃ bs', Means B m c' (nvars ++ nodeVars (matchPatterns [clause])) (evars ++ edgeVars (matchPatterns [clause])) (bs ++ bs')
        (followedBy D (patternsFit B m params (matchPatterns [clause]))) ∧
      List.Forall₂ (fun w b => compileBoolean T params c'.bindings w = .ok b) (matchWheres [clause]) bs' := by
  cases clause with
  | match_ optional patterns whereClause =>
    have hpatterns : matchPatterns [.match_ optional patterns whereClause] = patterns := List.append_nil _
    rw [hpatterns] at hplain ⊢
    have hwheres : matchWheres [.match_ optional patterns whereClause] = whereClause.toList := List.append_nil _
    rw [hwheres]
    cases optional with
    | true => cases hcompile
    | false =>
      rw [compileMatch] at hcompile
      split at hcompile
      · cases hcompile
      obtain ⟨c₁, hc₁, hcompile⟩ := bind_eq_ok.mp hcompile
      have hmeans := h.patterns patterns hplain hc₁
      cases whereClause with
      | none =>
        obtain rfl := Except.ok.inj hcompile
        exact ⟨[], by rwa [List.append_nil], .nil⟩
      | some w =>
        obtain ⟨b, hb, hcompile⟩ := bind_eq_ok.mp hcompile
        obtain rfl := pure_eq_ok.mp hcompile
        exact ⟨[b], means_boolean hmeans b, .cons hb .nil⟩
  | _ => cases hcompile

theorem means_clauses (clauses : List QueryClause) : ∀ {c c' : SqlCompiler} {nvars evars : List (Option String)}
    {bs : List SqlBoolean}
    {ws : List Expr} {D : List (IvmNode J) → List (IvmEdge J) → Prop}, Means B m c nvars evars bs D →
    List.Forall₂ (fun w b => compileBoolean T params c.bindings w = .ok b) ws bs → PlainPatterns (matchPatterns clauses) →
    clauses.foldlM (compileMatch T params) c = .ok c' →
    ∃ bs', Means B m c' (nvars ++ nodeVars (matchPatterns clauses)) (evars ++ edgeVars (matchPatterns clauses)) bs'
        (followedBy D (patternsFit B m params (matchPatterns clauses))) ∧
      List.Forall₂ (fun w b => compileBoolean T params c'.bindings w = .ok b) (ws ++ matchWheres clauses) bs' := by
  induction clauses with
  | nil =>
    intro c c' nvars evars bs ws D h hws _ hcompile
    obtain rfl := Except.ok.inj hcompile
    refine ⟨bs, ?_, by rwa [matchWheres, List.flatMap_nil, List.append_nil]⟩
    rw [matchPatterns, List.flatMap_nil, nodeVars, edgeVars, List.flatMap_nil, List.flatMap_nil, List.append_nil, List.append_nil]
    exact h.congr followedBy_nil
  | cons clause clauses ih =>
    intro c c' nvars evars bs ws D h hws hplain hcompile
    have hsplit : matchPatterns (clause :: clauses) = matchPatterns [clause] ++ matchPatterns clauses := by
      rw [matchPatterns, matchPatterns, matchPatterns, List.flatMap_cons, List.flatMap_singleton]
    have hwheres : matchWheres (clause :: clauses) = matchWheres [clause] ++ matchWheres clauses := by
      rw [matchWheres, matchWheres, matchWheres, List.flatMap_cons, List.flatMap_singleton]
    rw [hsplit] at hplain ⊢
    obtain ⟨hnodes, hedges⟩ := hplain
    rw [nodeVars, List.flatMap_append, List.forall_mem_append] at hnodes
    rw [edgeVars, List.flatMap_append, List.forall_mem_append] at hedges
    obtain ⟨c₁, hclause, hcompile⟩ := bind_eq_ok.mp hcompile
    obtain ⟨bs₁, hmeans, hws₁⟩ := means_clause h ⟨hnodes.1, hedges.1⟩ hclause
    have hgrow := bindings_grow h.named hmeans.named
    have hws' : List.Forall₂ (fun w b => compileBoolean T params c₁.bindings w = .ok b) (ws ++ matchWheres [clause]) (bs ++ bs₁) :=
      List.rel_append (hws.imp fun w b hb => compileBoolean_mono hgrow w hb) hws₁
    obtain ⟨bs', hmeans', hws''⟩ := ih hmeans hws' ⟨hnodes.2, hedges.2⟩ hcompile
    refine ⟨bs', ?_, by rwa [hwheres, ← List.append_assoc]⟩
    rw [nodeVars, edgeVars, List.flatMap_append, List.flatMap_append, ← List.append_assoc, ← List.append_assoc]
    refine hmeans'.congr fun vs es => (followedBy_assoc vs es).trans (followedBy_congr (fun vs es => ?_) vs es)
    exact (patternsFit_append _ _ vs es).symm

end

/-! ## Rows -/

/-- Rows by their places tell the places. -/
theorem envOf_injective {vs vs' : List (IvmNode J)} {es es' : List (IvmEdge J)} (h : envOf vs es = envOf vs' es') :
    vs = vs' ∧ es = es' := by
  injection h with hnodes hedges
  exact ⟨List.ext_getElem? (congrFun hnodes), List.ext_getElem? (congrFun hedges)⟩

theorem all_holds_iff {predicates : List SqlPredicate} {bs : List SqlBoolean} (hbs : ∀ b, .boolean b ∈ predicates ↔ b ∈ bs)
    (env : SqlEnv J) :
    predicates.all (SqlPredicate.holds B env) = true ↔
      (∀ p ∈ predicates, isPattern p = true → p.holds B env = true) ∧ ∀ b ∈ bs, B.truth env b = some true := by
  rw [List.all_eq_true]
  constructor
  · intro h
    exact ⟨fun p hp _ => h p hp, fun b hb => of_decide_eq_true (h _ ((hbs b).mpr hb))⟩
  · rintro ⟨hpattern, hboolean⟩ p hp
    cases p with
    | boolean b => exact decide_eq_true (hboolean b ((hbs b).mp hp))
    | _ => exact hpattern _ hp rfl

/-- Rows that fit behind none. -/
theorem followedBy_empty {F : List (IvmNode J) → List (IvmEdge J) → Prop} (vs : List (IvmNode J)) (es : List (IvmEdge J)) :
    followedBy (fun vs es => vs = [] ∧ es = []) F vs es ↔ F vs es := by
  constructor
  · rintro ⟨_, vs, _, es, rfl, rfl, ⟨rfl, rfl⟩, hf⟩
    exact hf
  · intro hf
    exact ⟨[], vs, [], es, rfl, rfl, ⟨rfl, rfl⟩, hf⟩

/-- What a compiled branch has of its clauses. The last clause has neither patterns nor a `WHERE`. -/
theorem clauses_of_compileBranch {clauses : List QueryClause} {s : SqlSelect} {columns : List String}
    (h : compileBranch T params clauses = .ok (s, columns)) :
    ∃ c, clauses.dropLast.foldlM (compileMatch T params) .init = .ok c ∧ s.from_ = c.fromSql ∧ s.predicates = c.predicates ∧
      matchPatterns clauses = matchPatterns clauses.dropLast ∧ matchWheres clauses = matchWheres clauses.dropLast := by
  rw [compileBranch] at h
  split at h
  · cases h
  split at h
  next distinct items orderBy skip limit hlast =>
    split at h
    · cases h
    obtain ⟨c, hc, h⟩ := bind_eq_ok.mp h
    obtain ⟨selected, -, h⟩ := bind_eq_ok.mp h
    obtain ⟨ordered, -, h⟩ := bind_eq_ok.mp h
    obtain ⟨skip', -, h⟩ := bind_eq_ok.mp h
    obtain ⟨limit', -, h⟩ := bind_eq_ok.mp h
    obtain ⟨rfl, rfl⟩ := Prod.mk.inj (pure_eq_ok.mp h)
    have hclauses := List.dropLast_append_getLast? _ hlast
    refine ⟨c, hc, rfl, rfl, ?_, ?_⟩
    · nth_rewrite 1 [← hclauses]
      rw [matchPatterns, List.flatMap_append]
      exact List.append_nil _
    · nth_rewrite 1 [← hclauses]
      rw [matchWheres, List.flatMap_append]
      exact List.append_nil _
  next => cases h

end SqlMatchAux

open SqlMatchAux

namespace SqlMatchAux

/-- `MATCH (a:Person)-[:KNOWS]->(b) WHERE a.age RETURN b`. -/
def knowers : List QueryClause :=
  [.match_ false [⟨none, [.node ⟨some "a", ["Person"], [], false⟩, .relationship ⟨none, ["KNOWS"], .out, [], none⟩,
      .node ⟨some "b", [], [], false⟩]⟩] (some (.property (.var "a") "age")),
    .return_ false [⟨.var "b", none⟩] [] none none]

/-- A person who knows another one. -/
def knowersMirror : Mirror Unit :=
  ⟨[⟨1, ["Person"], ()⟩, ⟨2, [], ()⟩], [⟨1, "KNOWS", 1, 2, ()⟩]⟩

theorem plain_knowers (v : String) (hv : some v ∈ nodeVars (matchPatterns knowers) ∨ some v ∈ edgeVars (matchPatterns knowers)) :
    startsWith "__anonymous_" v = false := by
  have hab : v = "a" ∨ v = "b" := by simpa [knowers, matchPatterns, nodeVars, edgeVars, elementNodeVars, elementEdgeVars] using hv
  rcases hab with rfl | rfl <;> decide +kernel

end SqlMatchAux

end PgEddy
