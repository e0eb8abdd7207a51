import PgEddy.Lemmas.Projections
import PgEddy.Lemmas.SqlSteps

/-!
# The patterns of the compiler

A node of a pattern adds a table and its conditions, and a relationship adds a table and that of the node behind it. The rows that
meet the conditions are the rows before, followed by rows that fit the pattern and are the ones of their variables.
-/

namespace PgEddy
namespace SqlPatternAux

open Fallible SqlCompiler SqlNameAux SqlStepAux ProjectionAux

variable {J : Type} {B : Jsonb J} {m : Mirror J} {params : Params}

/-! ## Labels, types and properties -/

theorem property_holds {env : SqlEnv J} {a : SqlAlias} {properties : J} (h : env.properties a = some properties) (key : String)
    (value : Json) :
    (SqlPredicate.property a key value).holds B env = true ↔
      ∃ v, B.get properties key = some v ∧ B.equal v (B.cast value) = true := by
  rw [SqlPredicate.holds, h, Option.bind_some]
  cases B.get properties key <;> simp

theorem propertyFilters_spec {a : SqlAlias} {entries : List (String × Expr)} {ps : List SqlPredicate}
    (h : propertyFilters params a entries = .ok ps) {env : SqlEnv J} {properties : J}
    (hproperties : env.properties a = some properties) :
    (∀ p ∈ ps, p.holds B env = true) ↔ propertiesFit B params properties entries := by
  rw [propertyFilters, mapM_eq_ok] at h
  induction h with
  | nil => simp [propertiesFit]
  | cons hp _ ih =>
    obtain ⟨value, hvalue, hp⟩ := bind_eq_ok.mp hp
    obtain rfl := pure_eq_ok.mp hp
    rw [List.forall_mem_cons, ih, propertiesFit, propertiesFit, List.forall_mem_cons, property_holds hproperties]
    refine and_congr_left fun _ => ⟨fun ⟨v, hv⟩ => ⟨value, v, hvalue, hv⟩, ?_⟩
    rintro ⟨value', v, hvalue', hv⟩
    obtain rfl := Except.ok.inj (hvalue.symm.trans hvalue')
    exact ⟨v, hv⟩

/-- The conditions of inline properties are about their table. -/
theorem propertyFilters_about {a : SqlAlias} {entries : List (String × Expr)} {ps : List SqlPredicate}
    (h : propertyFilters params a entries = .ok ps) : ∀ p ∈ ps, ∃ key value, p = .property a key value := by
  intro p hp
  obtain ⟨q, -, hq⟩ := exists_of_mem_mapM h hp
  obtain ⟨value, -, hq⟩ := bind_eq_ok.mp hq
  exact ⟨q.1, value, (pure_eq_ok.mp hq).symm⟩

/-- What a filter adds to a state: conditions about one table. -/
structure Filtered (c c' : SqlCompiler) (n e : Nat) (added : List SqlPredicate) : Prop where
  state : c' = { c with predicates := c.predicates ++ added }
  pattern : ∀ p ∈ added, isPattern p = true
  bounded : ∀ p ∈ added, below n e p

theorem addNodeFilters_spec {c c' : SqlCompiler} {node : NodePattern} {i : Nat}
    (h : addNodeFilters params c node i = .ok c') {n : Nat}
    (hi : i < n) (e : Nat) :
    ∃ added, Filtered c c' n e added ∧ ∀ (env : SqlEnv J) (v : IvmNode J), env.nodes i = some v →
      ((∀ p ∈ added, p.holds B env = true) ↔ (∀ l ∈ node.labels, l ∈ v.labels) ∧
        propertiesFit B params v.properties node.properties) := by
  obtain ⟨ps, hps, hc⟩ := bind_eq_ok.mp h
  obtain rfl := pure_eq_ok.mp hc
  refine ⟨node.labels.map (SqlPredicate.label i) ++ ps, ⟨by rw [List.append_assoc], ?_, ?_⟩, fun env v hv => ?_⟩
  · simp only [List.forall_mem_append, List.forall_mem_map]
    refine ⟨fun _ _ => rfl, fun p hp => ?_⟩
    obtain ⟨key, value, rfl⟩ := propertyFilters_about hps p hp
    rfl
  · simp only [List.forall_mem_append, List.forall_mem_map]
    refine ⟨fun _ _ => hi, fun p hp => ?_⟩
    obtain ⟨key, value, rfl⟩ := propertyFilters_about hps p hp
    exact hi
  · have hproperties : env.properties (.node i) = some v.properties := by rw [SqlEnv.properties, hv, Option.map_some]
    rw [List.forall_mem_append, propertyFilters_spec hps hproperties, List.forall_mem_map]
    simp [SqlPredicate.holds, hv]

theorem addEdgeFilters_spec {c c' : SqlCompiler} {rel : RelPattern} {i : Nat}
    (h : addEdgeFilters params c rel i = .ok c') (n : Nat)
    {e : Nat} (hi : i < e) :
    ∃ added, Filtered c c' n e added ∧ ∀ (env : SqlEnv J) (edge : IvmEdge J), env.edges i = some edge →
      ((∀ p ∈ added, p.holds B env = true) ↔
        (rel.relTypes = [] ∨ edge.relType ∈ rel.relTypes) ∧ propertiesFit B params edge.properties rel.properties) := by
  obtain ⟨ps, hps, hc⟩ := bind_eq_ok.mp h
  obtain rfl := pure_eq_ok.mp hc
  have htypes : ∀ p ∈ (if rel.relTypes.isEmpty then [] else [SqlPredicate.relTypes i rel.relTypes]),
    p = .relTypes i rel.relTypes := by
    intro p hp
    split at hp
    · cases hp
    · exact List.mem_singleton.mp hp
  refine ⟨(if rel.relTypes.isEmpty then [] else [SqlPredicate.relTypes i rel.relTypes]) ++ ps, ⟨by rw [List.append_assoc], ?_, ?_⟩,
    fun env edge hedge => ?_⟩
  · refine List.forall_mem_append.mpr ⟨fun p hp => ?_, fun p hp => ?_⟩
    · rw [htypes p hp]
      rfl
    · obtain ⟨key, value, rfl⟩ := propertyFilters_about hps p hp
      rfl
  · refine List.forall_mem_append.mpr ⟨fun p hp => ?_, fun p hp => ?_⟩
    · rw [htypes p hp]
      exact hi
    · obtain ⟨key, value, rfl⟩ := propertyFilters_about hps p hp
      exact hi
  · have hproperties : env.properties (.edge i) = some edge.properties := by rw [SqlEnv.properties, hedge, Option.map_some]
    rw [List.forall_mem_append, propertyFilters_spec hps hproperties]
    refine and_congr_left fun _ => ?_
    by_cases hempty : rel.relTypes = []
    · simp [hempty]
    · simp [hempty, SqlPredicate.holds, hedge]

/-! ## Solutions -/

/-- Rows at the places of a state that meet the conditions of its patterns. -/
def Solves (B : Jsonb J) (m : Mirror J) (c : SqlCompiler) (vs : List (IvmNode J)) (es : List (IvmEdge J)) : Prop :=
  (vs, es) ∈ placesOf m c.fromSql ∧ ∀ p ∈ c.predicates, isPattern p = true → p.holds B (envOf vs es) = true

/-- One more place is the one of its variable. -/
theorem byVariable_append {ρ ι : Type} {vars : List (Option String)} {xs : List ρ} (hlen : xs.length = vars.length) (f : ρ → ι)
    (var : Option String) (x : ρ) :
    byVariable ((vars ++ [var]).zip ((xs ++ [x]).map f)) ↔
      byVariable (vars.zip (xs.map f)) ∧ ∀ q ∈ vars.zip (xs.map f), q.2 = f x ↔ ∃ v, q.1 = some v ∧ var = some v := by
  rw [List.map_append, List.zip_append (by rw [List.length_map, hlen]), byVariable, List.pairwise_append]
  simp [byVariable]

/-- What a state says of nodes and relationships: its rows are those that `D` accepts and that are the ones of their variables. Its
other conditions are `bs`. -/
structure Means (B : Jsonb J) (m : Mirror J) (c : SqlCompiler) (nvars evars : List (Option String)) (bs : List SqlBoolean)
    (D : List (IvmNode J) → List (IvmEdge J) → Prop) : Prop where
  named : Named c nvars evars
  booleans : ∀ b, .boolean b ∈ c.predicates ↔ b ∈ bs
  numbered : Numbered c.fromSql nvars.length evars.length
  lengths : ∀ vs es, D vs es → vs.length = nvars.length ∧ es.length = evars.length
  solves_iff : ∀ vs es, Solves B m c vs es ↔
    D vs es ∧ byVariable (nvars.zip (vs.map IvmNode.nodeId)) ∧ byVariable (evars.zip (es.map IvmEdge.relId))

theorem Means.congr {c : SqlCompiler} {nvars evars : List (Option String)} {bs : List SqlBoolean}
    {D D' : List (IvmNode J) → List (IvmEdge J) → Prop}
    (h : Means B m c nvars evars bs D) (hiff : ∀ vs es, D vs es ↔ D' vs es) : Means B m c nvars evars bs D' where
  named := h.named
  booleans := h.booleans
  numbered := h.numbered
  lengths vs es hd := h.lengths vs es ((hiff vs es).mpr hd)
  solves_iff vs es := (h.solves_iff vs es).trans (and_congr_left fun _ => hiff vs es)

theorem means_init : Means B m .init [] [] [] fun vs es => vs = [] ∧ es = [] where
  named := named_init
  booleans b := by simp [SqlCompiler.init]
  numbered := .nil
  lengths := by
    rintro vs es ⟨rfl, rfl⟩
    exact ⟨rfl, rfl⟩
  solves_iff vs es := by simp [Solves, SqlCompiler.init, placesOf, byVariable]

theorem Filtered.named {c c' : SqlCompiler} {nvars evars : List (Option String)} {added : List SqlPredicate}
    (h : Filtered c c' nvars.length evars.length added) (hc : Named c nvars evars) : Named c' nvars evars := by
  obtain rfl := h.state
  exact { hc with bounded := List.forall_mem_append.mpr ⟨hc.bounded, h.bounded⟩ }

theorem named_addFrom {c : SqlCompiler} {nvars evars : List (Option String)} (hc : Named c nvars evars) (item : FromItem) :
    Named (c.addFrom item) nvars evars := { hc with }

/-- The conditions of a longer state, on more rows: those of the state before on the rows before, and the new ones. -/
theorem conditions_append {c c' : SqlCompiler} {nvars evars : List (Option String)} (hc : Named c nvars evars)
    {added : List SqlPredicate}
    (hpredicates : c'.predicates = c.predicates ++ added) (hpattern : ∀ p ∈ added, isPattern p = true) {vs : List (IvmNode J)}
    {es : List (IvmEdge J)} (hvs : vs.length = nvars.length) (hes : es.length = evars.length) (vs' : List (IvmNode J))
    (es' : List (IvmEdge J)) :
    (∀ p ∈ c'.predicates, isPattern p = true → p.holds B (envOf (vs ++ vs') (es ++ es')) = true) ↔
      (∀ p ∈ c.predicates, isPattern p = true → p.holds B (envOf vs es) = true) ∧
        ∀ p ∈ added, p.holds B (envOf (vs ++ vs') (es ++ es')) = true := by
  rw [hpredicates, List.forall_mem_append]
  refine and_congr (forall_congr' fun p => imp_congr_right fun hp => imp_congr_right fun hpat => ?_)
    (forall_congr' fun p => imp_congr_right fun hp => ?_)
  · rw [holds_append (by rw [hvs, hes]; exact hc.bounded p hp) hpat]
  · simp [hpattern p hp]

/-- The conditions of patterns are not those of a `WHERE`. -/
theorem booleans_append {c c' : SqlCompiler} {bs : List SqlBoolean} (hc : ∀ b, .boolean b ∈ c.predicates ↔ b ∈ bs)
    {added : List SqlPredicate} (hpredicates : c'.predicates = c.predicates ++ added) (hpattern : ∀ p ∈ added, isPattern p = true)
    (b : SqlBoolean) : .boolean b ∈ c'.predicates ↔ b ∈ bs := by
  rw [hpredicates, List.mem_append, ← hc]
  exact or_iff_left fun hb => by cases hpattern _ hb

/-! ## Steps -/

section

variable {nvars evars : List (Option String)} {bs : List SqlBoolean} {D : List (IvmNode J) → List (IvmEdge J) → Prop}

/-- The first node of a pattern. -/
theorem Means.first {c c₁ c₂ : SqlCompiler} (h : Means B m c nvars evars bs D) {node : NodePattern}
    (hplain : PlainVar node.var) {n : Nat}
    (hnew : c.newNode node = .ok (n, c₁)) (hfilter : addNodeFilters params (c₁.addFrom (.first n)) node n = .ok c₂) :
    n = nvars.length ∧ Means B m c₂ (nvars ++ [node.var]) evars bs fun vs' es =>
      ∃ vs v, vs' = vs ++ [v] ∧ D vs es ∧ nodeFits B m params node v := by
  obtain ⟨rfl, added, hadded⟩ := newNode_spec (B := B) h.named hplain hnew
  have hlt : nvars.length < (nvars ++ [node.var]).length := by simp
  obtain ⟨filters, hfilters, hholds⟩ := addNodeFilters_spec (B := B) hfilter hlt evars.length
  have hfrom : c₂.fromSql = c.fromSql ++ [.first nvars.length] := by
    rw [hfilters.state, SqlCompiler.addFrom, hadded.fromSql]
  have hpredicates : c₂.predicates = c.predicates ++ (added ++ filters) := by
    rw [hfilters.state, SqlCompiler.addFrom, hadded.predicates, List.append_assoc]
  have hpattern : ∀ p ∈ added ++ filters, isPattern p = true := List.forall_mem_append.mpr ⟨hadded.pattern, hfilters.pattern⟩
  have hlengths : ∀ vs' es, (∃ vs v, vs' = vs ++ [v] ∧ D vs es ∧ nodeFits B m params node v) →
      vs'.length = (nvars ++ [node.var]).length ∧ es.length = evars.length := by
    rintro vs' es ⟨vs, v, rfl, hd, -⟩
    simpa using h.lengths vs es hd
  have hnew' : ∀ (vs : List (IvmNode J)) (es : List (IvmEdge J)) (v : IvmNode J), vs.length = nvars.length →
      byVariable (nvars.zip (vs.map IvmNode.nodeId)) →
      ((∀ p ∈ added ++ filters, p.holds B (envOf (vs ++ [v]) es) = true) ↔
        (∀ q ∈ nvars.zip (vs.map IvmNode.nodeId), q.2 = v.nodeId ↔ ∃ x, q.1 = some x ∧ node.var = some x) ∧
          (∀ l ∈ node.labels, l ∈ v.labels) ∧ propertiesFit B params v.properties node.properties) := by
    intro vs es v hlen hdistinct
    have hv : (envOf (vs ++ [v]) es).nodes nvars.length = some v := by simp [envOf, ← hlen]
    rw [List.forall_mem_append, hadded.holds vs es v hlen hdistinct, hholds _ v hv]
  refine ⟨rfl, hfilters.named (named_addFrom hadded.named _), booleans_append h.booleans hpredicates hpattern, ?_, hlengths,
    fun vs' es => ?_⟩
  · rw [hfrom, List.length_append]
    exact .first h.numbered
  · have hsplit : Solves B m c₂ vs' es ↔ ∃ vs v, vs' = vs ++ [v] ∧ Solves B m c vs es ∧ v ∈ m.ivmNodes ∧
        ∀ p ∈ added ++ filters, p.holds B (envOf (vs ++ [v]) es) = true := by
      rw [Solves, hfrom, placesOf_append, List.mem_flatMap]
      constructor
      · rintro ⟨⟨q, hq, hmem⟩, hp⟩
        obtain ⟨v, hv, heq⟩ := List.mem_map.mp hmem
        obtain ⟨rfl, rfl⟩ := Prod.mk.inj heq
        obtain ⟨hlen, hlen'⟩ := length_of_mem_placesOf h.numbered q hq
        have hcond := (conditions_append h.named hpredicates hpattern hlen hlen' [v] []).mp (by rwa [List.append_nil])
        rw [List.append_nil] at hcond
        exact ⟨q.1, v, rfl, ⟨hq, hcond.1⟩, hv, hcond.2⟩
      · rintro ⟨vs, v, rfl, ⟨hq, hp⟩, hv, hnews⟩
        obtain ⟨hlen, hlen'⟩ := length_of_mem_placesOf h.numbered _ hq
        refine ⟨⟨(vs, es), hq, List.mem_map.mpr ⟨v, hv, rfl⟩⟩, ?_⟩
        have hcond := (conditions_append (B := B) h.named hpredicates hpattern hlen hlen' [v] []).mpr
          ⟨hp, by rwa [List.append_nil]⟩
        rwa [List.append_nil] at hcond
    rw [hsplit]
    constructor
    · rintro ⟨vs, v, rfl, hsolves, hv, hnews⟩
      obtain ⟨hd, hnodes, hedges⟩ := (h.solves_iff vs es).mp hsolves
      have hlen := (h.lengths vs es hd).1
      obtain ⟨hdiff, hlabels, hproperties⟩ := (hnew' vs es v hlen hnodes).mp hnews
      exact ⟨⟨vs, v, rfl, hd, hv, hlabels, hproperties⟩, (byVariable_append hlen _ _ _).mpr ⟨hnodes, hdiff⟩, hedges⟩
    · rintro ⟨⟨vs, v, rfl, hd, hv, hlabels, hproperties⟩, hnodes, hedges⟩
      have hlen := (h.lengths vs es hd).1
      obtain ⟨hnodes, hdiff⟩ := (byVariable_append hlen _ _ _).mp hnodes
      exact ⟨vs, v, rfl, (h.solves_iff vs es).mpr ⟨hd, hnodes, hedges⟩, hv,
        (hnew' vs es v hlen hnodes).mpr ⟨hdiff, hlabels, hproperties⟩⟩

/-- The conditions of the two joins of a relationship. -/
theorem connects_iff (direction : RelDirection) (u w : IvmNode J) (e : IvmEdge J) :
    (touches direction e u.nodeId = true ∧ joinsTo direction e u.nodeId w.nodeId = true) ↔ connects direction u e w := by
  cases direction with
  | out => simp [touches, joinsTo, connects, eq_comm]
  | in_ =>
    simp only [touches, joinsTo, connects, decide_eq_true_iff]
    exact ⟨fun ⟨h, h'⟩ => ⟨h'.symm, h⟩, fun ⟨h, h'⟩ => ⟨h', h.symm⟩⟩
  | both =>
    simp only [touches, joinsTo, connects, Bool.or_eq_true, Bool.and_eq_true, decide_eq_true_iff]
    constructor
    · rintro ⟨-, ⟨h, h'⟩ | ⟨h, h'⟩⟩
      · exact .inl ⟨h, h'.symm⟩
      · exact .inr ⟨h'.symm, h⟩
    · rintro (⟨h, h'⟩ | ⟨h, h'⟩)
      · exact ⟨.inl h, .inl ⟨h, h'.symm⟩⟩
      · exact ⟨.inr h', .inr ⟨h', h.symm⟩⟩

/-- The rows of two joins. -/
theorem mem_placesOf_hop {items : List FromItem} {n e : Nat} (h : Numbered items n e) {direction : RelDirection} {previous : Nat}
    {vs' : List (IvmNode J)} {es' : List (IvmEdge J)} :
    (vs', es') ∈ placesOf m (items ++ [.joinEdge e direction previous] ++ [.joinNode n direction e previous]) ↔
      ∃ vs v es edge u, vs' = vs ++ [v] ∧ es' = es ++ [edge] ∧ (vs, es) ∈ placesOf m items ∧ vs[previous]? = some u ∧
        edge ∈ m.ivmEdges ∧ v ∈ m.ivmNodes ∧ connects direction u edge v := by
  rw [placesOf_append, placesOf_append, List.mem_flatMap]
  constructor
  · rintro ⟨q, hq, hmem⟩
    obtain ⟨p, hp, hq⟩ := List.mem_flatMap.mp hq
    obtain ⟨edge, hedge, rfl⟩ := List.mem_map.mp hq
    obtain ⟨hedge, htouches⟩ := List.mem_filter.mp hedge
    obtain ⟨v, hv, heq⟩ := List.mem_map.mp hmem
    obtain ⟨hv, hjoins⟩ := List.mem_filter.mp hv
    obtain ⟨rfl, rfl⟩ := Prod.mk.inj heq
    obtain ⟨u, hu, htouches⟩ := (Option.any_eq_true _ _).mp htouches
    have hlast : (p.2 ++ [edge])[e]? = some edge := by
      rw [← (length_of_mem_placesOf h p hp).2, List.getElem?_concat_length]
    dsimp only at hjoins
    rw [hlast, hu] at hjoins
    exact ⟨p.1, v, p.2, edge, u, rfl, rfl, hp, hu, hedge, hv, (connects_iff direction u v edge).mp ⟨htouches, hjoins⟩⟩
  · rintro ⟨vs, v, es, edge, u, rfl, rfl, hp, hu, hedge, hv, hconnects⟩
    obtain ⟨htouches, hjoins⟩ := (connects_iff direction u v edge).mpr hconnects
    have hlast : (es ++ [edge])[e]? = some edge := by
      rw [← (length_of_mem_placesOf h _ hp).2, List.getElem?_concat_length]
    refine ⟨(vs, es ++ [edge]), List.mem_flatMap.mpr ⟨(vs, es), hp, List.mem_map.mpr ⟨edge, ?_, rfl⟩⟩,
      List.mem_map.mpr ⟨v, ?_, rfl⟩⟩
    · refine List.mem_filter.mpr ⟨hedge, ?_⟩
      rw [hu]
      exact htouches
    · refine List.mem_filter.mpr ⟨hv, ?_⟩
      dsimp only
      rw [hlast, hu]
      exact hjoins

/-- A relationship and the node behind it. -/
theorem Means.hop {c c₁ c₂ c₃ c₄ : SqlCompiler} (h : Means B m c nvars evars bs D) {rel : RelPattern} {node : NodePattern}
    (hrel : PlainVar rel.var) (hnode : PlainVar node.var) {previous e n : Nat} (hedge : c.newEdge rel = .ok (e, c₁))
    (hnew : c₁.newNode node = .ok (n, c₂))
    (hfilter : addEdgeFilters params ((c₂.addFrom (.joinEdge e rel.direction previous)).addFrom
      (.joinNode n rel.direction e previous)) rel e = .ok c₃)
    (hfilter' : addNodeFilters params c₃ node n = .ok c₄) :
    n = nvars.length ∧ Means B m c₄ (nvars ++ [node.var]) (evars ++ [rel.var]) bs fun vs' es' =>
      ∃ vs v es e u, vs' = vs ++ [v] ∧ es' = es ++ [e] ∧ D vs es ∧ vs[previous]? = some u ∧
        edgeFits B m params rel e ∧ connects rel.direction u e v ∧ nodeFits B m params node v := by
  obtain ⟨rfl, added, hadded⟩ := newEdge_spec (B := B) h.named hrel hedge
  obtain ⟨rfl, added', hadded'⟩ := newNode_spec (B := B) hadded.named hnode hnew
  have hlt : nvars.length < (nvars ++ [node.var]).length := by simp
  have hlt' : evars.length < (evars ++ [rel.var]).length := by simp
  obtain ⟨filters, hfilters, hholds⟩ := addEdgeFilters_spec (B := B) hfilter (nvars ++ [node.var]).length hlt'
  obtain ⟨filters', hfilters', hholds'⟩ := addNodeFilters_spec (B := B) hfilter' hlt (evars ++ [rel.var]).length
  have hfrom : c₄.fromSql = c.fromSql ++ [.joinEdge evars.length rel.direction previous] ++
      [.joinNode nvars.length rel.direction evars.length previous] := by
    rw [hfilters'.state, hfilters.state, SqlCompiler.addFrom, SqlCompiler.addFrom, hadded'.fromSql, hadded.fromSql]
  have hpredicates : c₄.predicates = c.predicates ++ (added ++ (added' ++ (filters ++ filters'))) := by
    rw [hfilters'.state, hfilters.state, SqlCompiler.addFrom, SqlCompiler.addFrom, hadded'.predicates, hadded.predicates]
    simp only [List.append_assoc]
  have hpattern : ∀ p ∈ added ++ (added' ++ (filters ++ filters')), isPattern p = true := by
    simp only [List.forall_mem_append]
    exact ⟨hadded.pattern, hadded'.pattern, hfilters.pattern, hfilters'.pattern⟩
  have hnumbered : Numbered c₄.fromSql (nvars.length + 1) (evars.length + 1) := by
    rw [hfrom]
    exact .joinNode (.joinEdge h.numbered _ _) _ _ _
  have hnews : ∀ (vs : List (IvmNode J)) (v : IvmNode J) (es : List (IvmEdge J)) (e : IvmEdge J), vs.length = nvars.length →
      es.length = evars.length → byVariable (nvars.zip (vs.map IvmNode.nodeId)) → byVariable (evars.zip (es.map IvmEdge.relId)) →
      ((∀ p ∈ added ++ (added' ++ (filters ++ filters')), p.holds B (envOf (vs ++ [v]) (es ++ [e])) = true) ↔
        (∀ q ∈ evars.zip (es.map IvmEdge.relId), q.2 = e.relId ↔ ∃ x, q.1 = some x ∧ rel.var = some x) ∧
        (∀ q ∈ nvars.zip (vs.map IvmNode.nodeId), q.2 = v.nodeId ↔ ∃ x, q.1 = some x ∧ node.var = some x) ∧
          ((rel.relTypes = [] ∨ e.relType ∈ rel.relTypes) ∧ propertiesFit B params e.properties rel.properties) ∧
          (∀ l ∈ node.labels, l ∈ v.labels) ∧ propertiesFit B params v.properties node.properties) := by
    intro vs v es e hlen hlen' hdistinct hdistinct'
    have hv : (envOf (vs ++ [v]) (es ++ [e])).nodes nvars.length = some v := by simp [envOf, ← hlen]
    have he : (envOf (vs ++ [v]) (es ++ [e])).edges evars.length = some e := by simp [envOf, ← hlen']
    rw [List.forall_mem_append, List.forall_mem_append, List.forall_mem_append]
    rw [hadded.holds (vs ++ [v]) es e hlen' hdistinct', hadded'.holds vs (es ++ [e]) v hlen hdistinct, hholds _ e he,
      hholds' _ v hv]
  have hlengths : ∀ vs' es', (∃ vs v es e u, vs' = vs ++ [v] ∧ es' = es ++ [e] ∧ D vs es ∧ vs[previous]? = some u ∧
      edgeFits B m params rel e ∧ connects rel.direction u e v ∧ nodeFits B m params node v) →
      vs'.length = (nvars ++ [node.var]).length ∧ es'.length = (evars ++ [rel.var]).length := by
    rintro vs' es' ⟨vs, v, es, e, u, rfl, rfl, hd, -⟩
    simpa using h.lengths vs es hd
  have hsplit : ∀ vs' es', Solves B m c₄ vs' es' ↔ ∃ vs v es e u, vs' = vs ++ [v] ∧ es' = es ++ [e] ∧ Solves B m c vs es ∧
      vs[previous]? = some u ∧ e ∈ m.ivmEdges ∧ v ∈ m.ivmNodes ∧ connects rel.direction u e v ∧
        ∀ p ∈ added ++ (added' ++ (filters ++ filters')), p.holds B (envOf (vs ++ [v]) (es ++ [e])) = true := by
    intro vs' es'
    rw [Solves, hfrom, mem_placesOf_hop h.numbered]
    constructor
    · rintro ⟨⟨vs, v, es, e, u, rfl, rfl, hq, hu, he, hv, hconnects⟩, hp⟩
      obtain ⟨hlen, hlen'⟩ := length_of_mem_placesOf h.numbered _ hq
      obtain ⟨hold, hnew⟩ := (conditions_append h.named hpredicates hpattern hlen hlen' [v] [e]).mp hp
      exact ⟨vs, v, es, e, u, rfl, rfl, ⟨hq, hold⟩, hu, he, hv, hconnects, hnew⟩
    · rintro ⟨vs, v, es, e, u, rfl, rfl, ⟨hq, hold⟩, hu, he, hv, hconnects, hnew⟩
      obtain ⟨hlen, hlen'⟩ := length_of_mem_placesOf h.numbered _ hq
      exact ⟨⟨vs, v, es, e, u, rfl, rfl, hq, hu, he, hv, hconnects⟩,
        (conditions_append h.named hpredicates hpattern hlen hlen' [v] [e]).mpr ⟨hold, hnew⟩⟩
  refine ⟨rfl, hfilters'.named (hfilters.named (named_addFrom (named_addFrom hadded'.named _) _)),
    booleans_append h.booleans hpredicates hpattern, by simpa using hnumbered, hlengths, fun vs' es' => (hsplit vs' es').trans ?_⟩
  constructor
  · rintro ⟨vs, v, es, e, u, rfl, rfl, hsolves, hu, he, hv, hconnects, hnew⟩
    obtain ⟨hd, hnodes, hedges⟩ := (h.solves_iff vs es).mp hsolves
    obtain ⟨hlen, hlen'⟩ := h.lengths vs es hd
    obtain ⟨hdiff, hdiff', ⟨htypes, hproperties⟩, hlabels, hproperties'⟩ := (hnews vs v es e hlen hlen' hnodes hedges).mp hnew
    exact ⟨⟨vs, v, es, e, u, rfl, rfl, hd, hu, ⟨he, htypes, hproperties⟩, hconnects, hv, hlabels, hproperties'⟩,
      (byVariable_append hlen _ _ _).mpr ⟨hnodes, hdiff'⟩, (byVariable_append hlen' _ _ _).mpr ⟨hedges, hdiff⟩⟩
  · rintro ⟨⟨vs, v, es, e, u, rfl, rfl, hd, hu, ⟨he, htypes, hproperties⟩, hconnects, hv, hlabels, hproperties'⟩, hnodes, hedges⟩
    obtain ⟨hlen, hlen'⟩ := h.lengths vs es hd
    obtain ⟨hnodes, hdiff'⟩ := (byVariable_append hlen _ _ _).mp hnodes
    obtain ⟨hedges, hdiff⟩ := (byVariable_append hlen' _ _ _).mp hedges
    exact ⟨vs, v, es, e, u, rfl, rfl, (h.solves_iff vs es).mpr ⟨hd, hnodes, hedges⟩, hu, he, hv, hconnects,
      (hnews vs v es e hlen hlen' hnodes hedges).mpr ⟨hdiff, hdiff', ⟨htypes, hproperties⟩, hlabels, hproperties'⟩⟩

end

/-! ## Chains and patterns -/

theorem chainFits_cons {rel : RelPattern} {node : NodePattern} {rest : List PatternElement} {u : IvmNode J} {vs : List (IvmNode J)}
    {es : List (IvmEdge J)} :
    chainFits B m params (.relationship rel :: .node node :: rest) u vs es ↔
      ∃ v vs' e es', vs = v :: vs' ∧ es = e :: es' ∧ edgeFits B m params rel e ∧ connects rel.direction u e v ∧
        nodeFits B m params node v ∧ chainFits B m params rest v vs' es' := by
  constructor
  · intro h
    cases vs with
    | nil => cases h
    | cons v vs =>
      cases es with
      | nil => cases h
      | cons e es =>
        obtain ⟨he, hconnects, hv, hrest⟩ := h
        exact ⟨v, vs, e, es, rfl, rfl, he, hconnects, hv, hrest⟩
  · rintro ⟨v, vs, e, es, rfl, rfl, he, hconnects, hv, hrest⟩
    exact ⟨he, hconnects, hv, hrest⟩

theorem chainFits_nil {u : IvmNode J} {vs : List (IvmNode J)} {es : List (IvmEdge J)} :
    chainFits B m params [] u vs es ↔ vs = [] ∧ es = [] := by
  cases vs <;> cases es <;> simp [chainFits]

/-- The relationships of a pattern behind a node that is there. -/
theorem Means.chain (k : Nat) : ∀ {c c' : SqlCompiler} {previous : Nat} {rest : List PatternElement}
    {nvars evars : List (Option String)}
    {bs : List SqlBoolean} {D : List (IvmNode J) → List (IvmEdge J) → Prop}, Means B m c nvars evars bs D → rest.length = 2 * k →
    (∀ v ∈ elementNodeVars rest, PlainVar v) → (∀ v ∈ elementEdgeVars rest, PlainVar v) → previous < nvars.length →
    compileChain params c previous rest = .ok c' →
    Means B m c' (nvars ++ elementNodeVars rest) (evars ++ elementEdgeVars rest) bs fun vs' es' =>
      ∃ vs vs₂ es es₂ u, vs' = vs ++ vs₂ ∧ es' = es ++ es₂ ∧ D vs es ∧ vs[previous]? = some u ∧
        chainFits B m params rest u vs₂ es₂ := by
  induction k with
  | zero =>
    intro c c' previous rest nvars evars bs D h hlen _ _ hprevious hcompile
    obtain rfl := List.eq_nil_of_length_eq_zero hlen
    obtain rfl := Except.ok.inj hcompile
    rw [elementNodeVars, elementEdgeVars, List.filterMap_nil, List.filterMap_nil, List.append_nil, List.append_nil]
    refine h.congr fun vs es => ⟨fun hd => ?_, ?_⟩
    · rw [← (h.lengths vs es hd).1] at hprevious
      exact ⟨vs, [], es, [], _, (List.append_nil _).symm, (List.append_nil _).symm, hd,
        List.getElem?_eq_getElem hprevious, trivial⟩
    · rintro ⟨vs, vs₂, es, es₂, u, rfl, rfl, hd, -, hchain⟩
      obtain ⟨rfl, rfl⟩ := chainFits_nil.mp hchain
      rwa [List.append_nil, List.append_nil]
  | succ k ih =>
    intro c c' previous rest nvars evars bs D h hlen hnodes hedges hprevious hcompile
    obtain ⟨x, y, rest, rfl⟩ : ∃ x y tail, rest = x :: y :: tail := by
      cases rest with
      | nil => simp at hlen
      | cons x rest =>
        cases rest with
        | nil => simp at hlen; omega
        | cons y rest => exact ⟨x, y, rest, rfl⟩
    cases x with
    | node first => cases hcompile
    | relationship rel =>
      cases y with
      | relationship second => cases hcompile
      | node node =>
        rw [compileChain] at hcompile
        split at hcompile
        · cases hcompile
        obtain ⟨⟨e, c₁⟩, hedge, hcompile⟩ := bind_eq_ok.mp hcompile
        obtain ⟨⟨n, c₂⟩, hnode, hcompile⟩ := bind_eq_ok.mp hcompile
        obtain ⟨c₃, hfilter, hcompile⟩ := bind_eq_ok.mp hcompile
        obtain ⟨c₄, hfilter', hcompile⟩ := bind_eq_ok.mp hcompile
        have hnodevars : elementNodeVars (.relationship rel :: .node node :: rest) = node.var :: elementNodeVars rest := rfl
        have hedgevars : elementEdgeVars (.relationship rel :: .node node :: rest) = rel.var :: elementEdgeVars rest := rfl
        rw [hnodevars, List.forall_mem_cons] at hnodes
        rw [hedgevars, List.forall_mem_cons] at hedges
        obtain ⟨rfl, hhop⟩ := h.hop hedges.1 hnodes.1 hedge hnode hfilter hfilter'
        have hrest := ih hhop (by simp at hlen; omega) hnodes.2 hedges.2 (by simp) hcompile
        rw [hnodevars, hedgevars, List.append_cons, List.append_cons evars]
        refine hrest.congr fun vs es => ?_
        constructor
        · rintro ⟨_, vs₂, _, es₂, u', rfl, rfl, ⟨vs₁, v, es₁, e, u, rfl, rfl, hd, hu, he, hconnects, hv⟩, hu', hchain⟩
          -- The node behind the relationship is the last one.
          rw [← (h.lengths vs₁ es₁ hd).1, List.getElem?_concat_length] at hu'
          obtain rfl := Option.some.inj hu'
          exact ⟨vs₁, v :: vs₂, es₁, e :: es₂, u, by simp, by simp, hd, hu,
            chainFits_cons.mpr ⟨v, vs₂, e, es₂, rfl, rfl, he, hconnects, hv, hchain⟩⟩
        · rintro ⟨vs₁, _, es₁, _, u, rfl, rfl, hd, hu, hchain⟩
          obtain ⟨v, vs₂, e, es₂, rfl, rfl, he, hconnects, hv, hchain⟩ := chainFits_cons.mp hchain
          refine ⟨vs₁ ++ [v], vs₂, es₁ ++ [e], es₂, v, by simp, by simp,
            ⟨vs₁, v, es₁, e, u, rfl, rfl, hd, hu, he, hconnects, hv⟩, ?_, hchain⟩
          rw [← (h.lengths vs₁ es₁ hd).1, List.getElem?_concat_length]

/-- Rows that `D` accepts, followed by rows that fit. -/
def followedBy (D F : List (IvmNode J) → List (IvmEdge J) → Prop) (vs' : List (IvmNode J)) (es' : List (IvmEdge J)) : Prop :=
  ∃ vs vs₂ es es₂, vs' = vs ++ vs₂ ∧ es' = es ++ es₂ ∧ D vs es ∧ F vs₂ es₂

/-- The variables of patterns are not named like the compiler's own. -/
def PlainPatterns (patterns : List Pattern) : Prop := (∀ v ∈ nodeVars patterns, PlainVar v) ∧ ∀ v ∈ edgeVars patterns, PlainVar v

section

variable {nvars evars : List (Option String)} {bs : List SqlBoolean} {D : List (IvmNode J) → List (IvmEdge J) → Prop}

theorem Means.pattern {c c' : SqlCompiler} (h : Means B m c nvars evars bs D) {p : Pattern}
    (hnodes : ∀ v ∈ elementNodeVars p.elements, PlainVar v) (hedges : ∀ v ∈ elementEdgeVars p.elements, PlainVar v)
    (hcompile : compilePattern params c p = .ok c') :
    Means B m c' (nvars ++ elementNodeVars p.elements) (evars ++ elementEdgeVars p.elements) bs
      (followedBy D (patternFits B m params p)) := by
  obtain ⟨var, elements⟩ := p
  rw [compilePattern] at hcompile
  split at hcompile
  · cases hcompile
  cases elements with
  | nil => cases hcompile
  | cons x rest =>
    cases x with
    | relationship rel => cases hcompile
    | node first =>
      dsimp only at hcompile
      split at hcompile
      · cases hcompile
      next hodd =>
      obtain ⟨⟨n, c₁⟩, hnode, hcompile⟩ := bind_eq_ok.mp hcompile
      obtain ⟨c₂, hfilter, hcompile⟩ := bind_eq_ok.mp hcompile
      have hnodevars : elementNodeVars (.node first :: rest) = first.var :: elementNodeVars rest := rfl
      have hedgevars : elementEdgeVars (.node first :: rest) = elementEdgeVars rest := rfl
      rw [hnodevars, List.forall_mem_cons] at hnodes
      rw [hedgevars] at hedges
      obtain ⟨rfl, hfirst⟩ := h.first hnodes.1 hnode hfilter
      have hlen : rest.length = 2 * (rest.length / 2) := by
        rw [List.length_cons] at hodd
        omega
      have hrest := hfirst.chain _ hlen hnodes.2 hedges (by simp) hcompile
      rw [hnodevars, hedgevars, List.append_cons]
      refine hrest.congr fun vs es => ?_
      constructor
      · rintro ⟨_, vs₂, es₁, es₂, u, rfl, rfl, ⟨vs₁, v, rfl, hd, hv⟩, hu, hchain⟩
        rw [← (h.lengths vs₁ es₁ hd).1, List.getElem?_concat_length] at hu
        obtain rfl := Option.some.inj hu
        exact ⟨vs₁, v :: vs₂, es₁, es₂, by simp, rfl, hd, hv, hchain⟩
      · rintro ⟨vs₁, vs₂, es₁, es₂, rfl, rfl, hd, hfits⟩
        cases vs₂ with
        | nil => cases hfits
        | cons v vs₂ =>
          refine ⟨vs₁ ++ [v], vs₂, es₁, es₂, v, by simp, rfl, ⟨vs₁, v, rfl, hd, hfits.1⟩, ?_, hfits.2⟩
          rw [← (h.lengths vs₁ es₁ hd).1, List.getElem?_concat_length]

theorem followedBy_assoc {F G : List (IvmNode J) → List (IvmEdge J) → Prop} (vs : List (IvmNode J)) (es : List (IvmEdge J)) :
    followedBy (followedBy D F) G vs es ↔ followedBy D (followedBy F G) vs es := by
  constructor
  · rintro ⟨_, vs₃, _, es₃, rfl, rfl, ⟨vs₁, vs₂, es₁, es₂, rfl, rfl, hd, hf⟩, hg⟩
    exact ⟨vs₁, vs₂ ++ vs₃, es₁, es₂ ++ es₃, by simp, by simp, hd, vs₂, vs₃, es₂, es₃, rfl, rfl, hf, hg⟩
  · rintro ⟨vs₁, _, es₁, _, rfl, rfl, hd, vs₂, vs₃, es₂, es₃, rfl, rfl, hf, hg⟩
    exact ⟨vs₁ ++ vs₂, vs₃, es₁ ++ es₂, es₃, by simp, by simp, ⟨vs₁, vs₂, es₁, es₂, rfl, rfl, hd, hf⟩, hg⟩

theorem followedBy_nil (vs : List (IvmNode J)) (es : List (IvmEdge J)) :
    D vs es ↔ followedBy D (patternsFit B m params []) vs es := by
  constructor
  · intro hd
    exact ⟨vs, [], es, [], by simp, by simp, hd, rfl, rfl⟩
  · rintro ⟨vs, _, es, _, rfl, rfl, hd, rfl, rfl⟩
    rwa [List.append_nil, List.append_nil]

end

theorem Means.patterns (patterns : List Pattern) : ∀ {c c' : SqlCompiler} {nvars evars : List (Option String)}
    {bs : List SqlBoolean} {D : List (IvmNode J) → List (IvmEdge J) → Prop}, Means B m c nvars evars bs D →
    PlainPatterns patterns →
    patterns.foldlM (compilePattern params) c = .ok c' →
    Means B m c' (nvars ++ nodeVars patterns) (evars ++ edgeVars patterns) bs
      (followedBy D (patternsFit B m params patterns)) := by
  induction patterns with
  | nil =>
    intro c c' nvars evars bs D h _ hcompile
    obtain rfl := Except.ok.inj hcompile
    rw [nodeVars, edgeVars, List.flatMap_nil, List.flatMap_nil, List.append_nil, List.append_nil]
    exact h.congr followedBy_nil
  | cons p patterns ih =>
    rintro c c' nvars evars bs D h ⟨hnodes, hedges⟩ hcompile
    rw [nodeVars, List.flatMap_cons, List.forall_mem_append] at hnodes
    rw [edgeVars, List.flatMap_cons, List.forall_mem_append] at hedges
    obtain ⟨c₁, hpattern, hcompile⟩ := bind_eq_ok.mp hcompile
    have hrest := ih (h.pattern hnodes.1 hedges.1 hpattern) ⟨hnodes.2, hedges.2⟩ hcompile
    rw [nodeVars, edgeVars, List.flatMap_cons, List.flatMap_cons, ← List.append_assoc, ← List.append_assoc]
    exact hrest.congr followedBy_assoc

end SqlPatternAux
end PgEddy
