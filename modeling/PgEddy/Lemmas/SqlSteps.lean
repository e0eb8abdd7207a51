import PgEddy.Lemmas.SqlNames
import PgEddy.Lib.Fallible

/-!
# The steps of the compiler

A step adds tables and conditions. Read by their places, the rows with the new tables are those without them, with a row that meets
the new conditions behind them.
-/

namespace PgEddy
namespace SqlStepAux

open Fallible SqlCompiler SqlNameAux

variable {J : Type} {B : Jsonb J} {m : Mirror J} {params : Params}

/-! ## Places -/

/-- Nodes and relationships, by their places. -/
abbrev Places (J : Type) := List (IvmNode J) × List (IvmEdge J)

/-- Places with one more. -/
def extendPlaces (m : Mirror J) (p : Places J) : FromItem → List (Places J)
  | .first _ => m.ivmNodes.map fun n => (p.1 ++ [n], p.2)
  | .joinEdge _ direction previous =>
    (m.ivmEdges.filter fun e => p.1[previous]?.any fun v => touches direction e v.nodeId).map fun e => (p.1, p.2 ++ [e])
  | .joinNode _ direction edge previous =>
    (m.ivmNodes.filter fun n => p.2[edge]?.any fun e => p.1[previous]?.any fun v => joinsTo direction e v.nodeId n.nodeId).map
      fun n => (p.1 ++ [n], p.2)

def placesOf (m : Mirror J) (items : List FromItem) : List (Places J) :=
  items.foldl (fun ps item => ps.flatMap fun p => extendPlaces m p item) [([], [])]

theorem placesOf_append (items : List FromItem) (item : FromItem) :
    placesOf m (items ++ [item]) = (placesOf m items).flatMap fun p => extendPlaces m p item := by
  rw [placesOf, List.foldl_append]
  rfl

/-- The tables are numbered in order. -/
inductive Numbered : List FromItem → Nat → Nat → Prop where
  | nil : Numbered [] 0 0
  | first {items : List FromItem} {n e : Nat} (h : Numbered items n e) : Numbered (items ++ [.first n]) (n + 1) e
  | joinEdge {items : List FromItem} {n e : Nat} (h : Numbered items n e) (direction : RelDirection) (previous : Nat) :
    Numbered (items ++ [.joinEdge e direction previous]) n (e + 1)
  | joinNode {items : List FromItem} {n e : Nat} (h : Numbered items n e) (direction : RelDirection) (edge previous : Nat) :
    Numbered (items ++ [.joinNode n direction edge previous]) (n + 1) e

theorem bindNode_envOf (vs : List (IvmNode J)) (es : List (IvmEdge J)) (v : IvmNode J) :
    (envOf vs es).bindNode vs.length v = envOf (vs ++ [v]) es := by
  rw [SqlEnv.bindNode, envOf, envOf]
  refine congrArg (fun f => SqlEnv.mk f _) (funext fun j => ?_)
  dsimp only
  by_cases hj : j = vs.length
  · simp [hj]
  · rw [if_neg hj]
    rcases Nat.lt_or_gt_of_ne hj with hlt | hgt
    · rw [List.getElem?_append_left hlt]
    · rw [List.getElem?_eq_none (Nat.le_of_lt hgt), List.getElem?_eq_none (by rw [List.length_append]; exact hgt)]

theorem bindEdge_envOf (vs : List (IvmNode J)) (es : List (IvmEdge J)) (e : IvmEdge J) :
    (envOf vs es).bindEdge es.length e = envOf vs (es ++ [e]) := by
  rw [SqlEnv.bindEdge, envOf, envOf]
  refine congrArg (fun f => SqlEnv.mk _ f) (funext fun j => ?_)
  dsimp only
  by_cases hj : j = es.length
  · simp [hj]
  · rw [if_neg hj]
    rcases Nat.lt_or_gt_of_ne hj with hlt | hgt
    · rw [List.getElem?_append_left hlt]
    · rw [List.getElem?_eq_none (Nat.le_of_lt hgt), List.getElem?_eq_none (by rw [List.length_append]; exact hgt)]

/-- Numbered tables have a row at each place. -/
theorem length_of_mem_placesOf {items : List FromItem} {n e : Nat} (h : Numbered items n e) :
    ∀ p ∈ placesOf m items, p.1.length = n ∧ p.2.length = e := by
  induction h with
  | nil =>
    intro p hp
    rw [List.mem_singleton.mp hp]
    exact ⟨rfl, rfl⟩
  | first _ ih =>
    intro p hp
    rw [placesOf_append] at hp
    obtain ⟨q, hq, hp⟩ := List.mem_flatMap.mp hp
    obtain ⟨v, -, rfl⟩ := List.mem_map.mp hp
    obtain ⟨hn, he⟩ := ih q hq
    exact ⟨by simp [hn], he⟩
  | joinEdge _ direction previous ih =>
    intro p hp
    rw [placesOf_append] at hp
    obtain ⟨q, hq, hp⟩ := List.mem_flatMap.mp hp
    obtain ⟨e, -, rfl⟩ := List.mem_map.mp hp
    obtain ⟨hn, he⟩ := ih q hq
    exact ⟨hn, by simp [he]⟩
  | joinNode _ direction edge previous ih =>
    intro p hp
    rw [placesOf_append] at hp
    obtain ⟨q, hq, hp⟩ := List.mem_flatMap.mp hp
    obtain ⟨v, -, rfl⟩ := List.mem_map.mp hp
    obtain ⟨hn, he⟩ := ih q hq
    exact ⟨by simp [hn], he⟩

theorem nodeId_envOf (vs : List (IvmNode J)) (es : List (IvmEdge J)) (i : Nat) :
    (envOf vs es).nodeId i = vs[i]?.map IvmNode.nodeId :=
  rfl

/-- The rows of numbered tables, by their places. -/
theorem fromRows_eq {items : List FromItem} {n e : Nat} (h : Numbered items n e) :
    fromRows m items = (placesOf m items).map fun p => envOf p.1 p.2 := by
  have hstep : ∀ {items : List FromItem} {n e : Nat} {item : FromItem}, Numbered items n e →
      fromRows m items = ((placesOf m items).map fun p => envOf p.1 p.2) →
      (∀ p : Places J, p.1.length = n → p.2.length = e →
        item.extend m (envOf p.1 p.2) = (extendPlaces m p item).map fun p => envOf p.1 p.2) →
      fromRows m (items ++ [item]) = (placesOf m (items ++ [item])).map fun p => envOf p.1 p.2 := by
    intro items n e item hitems ih hitem
    have hfrom : fromRows m (items ++ [item]) = (fromRows m items).flatMap fun env => item.extend m env := by
      rw [fromRows, List.foldl_append]
      rfl
    rw [hfrom, ih, placesOf_append, List.flatMap_map, List.map_flatMap]
    refine List.flatMap_congr fun p hp => ?_
    obtain ⟨hn, he⟩ := length_of_mem_placesOf hitems p hp
    exact hitem p hn he
  induction h with
  | nil => rfl
  | first h ih =>
    refine hstep h ih fun p hn he => ?_
    subst hn
    rw [FromItem.extend, extendPlaces, List.map_map]
    exact List.map_congr_left fun v _ => bindNode_envOf p.1 p.2 v
  | joinEdge h direction previous ih =>
    refine hstep h ih fun p hn he => ?_
    subst he
    rw [FromItem.extend, extendPlaces, List.map_map, nodeId_envOf]
    simp only [Option.any_map]
    exact List.map_congr_left fun e _ => bindEdge_envOf p.1 p.2 e
  | joinNode h direction edge previous ih =>
    refine hstep h ih fun p hn he => ?_
    subst hn
    rw [FromItem.extend, extendPlaces, List.map_map, nodeId_envOf]
    simp only [Option.any_map]
    exact List.map_congr_left fun v _ => bindNode_envOf p.1 p.2 v

/-- Tables without duplicates give no row twice. -/
theorem nodup_placesOf (hnodes : m.ivmNodes.Nodup) (hedges : m.ivmEdges.Nodup) (items : List FromItem) :
    (placesOf m items).Nodup := by
  induction items using List.reverseRecOn with
  | nil => exact List.nodup_singleton _
  | append_singleton items item ih =>
    rw [placesOf_append, List.nodup_flatMap]
    refine ⟨fun p _ => ?_, ih.imp fun {p q} hpq => ?_⟩
    · cases item with
      | first => exact hnodes.map fun v w h => by simpa using h
      | joinEdge => exact (hedges.filter _).map fun v w h => by simpa using h
      | joinNode => exact (hnodes.filter _).map fun v w h => by simpa using h
    · intro r hp hq
      -- A row tells the row it was made of.
      refine hpq ?_
      cases item with
      | first =>
        obtain ⟨v, -, rfl⟩ := List.mem_map.mp hp
        obtain ⟨w, -, heq⟩ := List.mem_map.mp hq
        obtain ⟨hvs, hes⟩ := Prod.mk.inj heq
        exact Prod.ext (List.append_inj_left' hvs.symm rfl) hes.symm
      | joinEdge =>
        obtain ⟨v, -, rfl⟩ := List.mem_map.mp hp
        obtain ⟨w, -, heq⟩ := List.mem_map.mp hq
        obtain ⟨hvs, hes⟩ := Prod.mk.inj heq
        exact Prod.ext hvs.symm (List.append_inj_left' hes.symm rfl)
      | joinNode =>
        obtain ⟨v, -, rfl⟩ := List.mem_map.mp hp
        obtain ⟨w, -, heq⟩ := List.mem_map.mp hq
        obtain ⟨hvs, hes⟩ := Prod.mk.inj heq
        exact Prod.ext (List.append_inj_left' hvs.symm rfl) hes.symm

/-! ## Conditions -/

/-- A condition that the compiler makes of a pattern. -/
def isPattern : SqlPredicate → Bool
  | .boolean _ => false
  | _ => true

/-- A condition is about tables that are there. -/
def below (n e : Nat) : SqlPredicate → Prop
  | .sameNode i j => i < n ∧ j < n
  | .otherNode i j => i < n ∧ j < n
  | .sameEdge i j => i < e ∧ j < e
  | .otherEdge i j => i < e ∧ j < e
  | .label i _ => i < n
  | .relTypes i _ => i < e
  | .property (.node i) _ _ => i < n
  | .property (.edge i) _ _ => i < e
  | .boolean _ => True

theorem below_mono {n e n' e' : Nat} {p : SqlPredicate} (h : below n e p) (hn : n ≤ n') (he : e ≤ e') : below n' e' p := by
  cases p with
  | sameNode i j | otherNode i j => exact ⟨Nat.lt_of_lt_of_le h.1 hn, Nat.lt_of_lt_of_le h.2 hn⟩
  | sameEdge i j | otherEdge i j => exact ⟨Nat.lt_of_lt_of_le h.1 he, Nat.lt_of_lt_of_le h.2 he⟩
  | label i name => exact Nat.lt_of_lt_of_le h hn
  | relTypes i types => exact Nat.lt_of_lt_of_le h he
  | property a key value =>
    cases a with
    | node i => exact Nat.lt_of_lt_of_le h hn
    | edge i => exact Nat.lt_of_lt_of_le h he
  | boolean b => trivial

/-- Rows that come later change nothing for a condition. -/
theorem holds_append {vs : List (IvmNode J)} {es : List (IvmEdge J)} {p : SqlPredicate} (h : below vs.length es.length p)
    (hp : isPattern p = true) (vs' : List (IvmNode J)) (es' : List (IvmEdge J)) :
    p.holds B (envOf (vs ++ vs') (es ++ es')) = p.holds B (envOf vs es) := by
  have hnode : ∀ {i : Nat}, i < vs.length → (envOf (vs ++ vs') (es ++ es')).nodes i = (envOf vs es).nodes i :=
    fun hi => List.getElem?_append_left hi
  have hedge : ∀ {i : Nat}, i < es.length → (envOf (vs ++ vs') (es ++ es')).edges i = (envOf vs es).edges i :=
    fun hi => List.getElem?_append_left hi
  cases p with
  | sameNode i j | otherNode i j => simp only [SqlPredicate.holds, SqlEnv.nodeId, hnode h.1, hnode h.2]
  | sameEdge i j | otherEdge i j => simp only [SqlPredicate.holds, SqlEnv.relId, hedge h.1, hedge h.2]
  | label i name => simp only [SqlPredicate.holds, hnode h]
  | relTypes i types => simp only [SqlPredicate.holds, hedge h]
  | property a key value =>
    cases a with
    | node i => simp only [SqlPredicate.holds, SqlEnv.properties, hnode h]
    | edge i => simp only [SqlPredicate.holds, SqlEnv.properties, hedge h]
  | boolean b => cases hp

/-! ## The state of the compiler -/

/-- The tables of a state are named by the variables of their occurrences, and its conditions are about them. -/
structure Named (c : SqlCompiler) (nvars evars : List (Option String)) : Prop where
  nodes : c.nodeOccurrences = occurrencesOf "__anonymous_node_" nvars
  edges : c.edgeOccurrences = occurrencesOf "__anonymous_edge_" evars
  nextNode : c.nextNode = nvars.length
  nextEdge : c.nextEdge = evars.length
  plainNodes : ∀ v ∈ nvars, PlainVar v
  plainEdges : ∀ v ∈ evars, PlainVar v
  bindings : ∀ v, c.bindings[v]? = tableOf nvars evars v
  kinds : ∀ v, some v ∈ nvars → some v ∉ evars
  bounded : ∀ p ∈ c.predicates, below nvars.length evars.length p

theorem named_init : Named .init [] [] where
  nodes := rfl
  edges := rfl
  nextNode := rfl
  nextEdge := rfl
  plainNodes := by simp
  plainEdges := by simp
  bindings v := by simp [SqlCompiler.init, tableOf]
  kinds v h := by cases h
  bounded p hp := by simp [SqlCompiler.init] at hp

/-- A variable that is bound is not one of the compiler's own names. -/
theorem not_bound_own {c : SqlCompiler} {nvars evars : List (Option String)} (hc : Named c nvars evars) {pre : String}
    (hpre : IsOwn pre)
    (s : String) : c.bindings[pre ++ s]? = none := by
  have hown : ∀ {vars : List (Option String)}, (∀ v ∈ vars, PlainVar v) → some (pre ++ s) ∉ vars := by
    intro vars hplain hmem
    have hstarts := hplain _ hmem _ rfl
    rw [startsWith_own hpre] at hstarts
    cases hstarts
  rw [hc.bindings]
  exact tableOf_eq_none.mpr ⟨hown hc.plainNodes, hown hc.plainEdges⟩

theorem mem_occurrencesOf {pre : String} {vars : List (Option String)} {o : String × Nat} (h : o ∈ occurrencesOf pre vars) :
    o.2 < vars.length := by
  obtain ⟨⟨v, i⟩, hp, rfl⟩ := List.mem_map.mp h
  rw [List.mem_zipIdx_iff_getElem?] at hp
  exact (List.getElem?_eq_some_iff.mp hp).1

theorem sameValue_eq {α : Type} [DecidableEq α] {a b : Option α} {x : α} (ha : a = some x) :
    sameValue a b = true ↔ b = some x := by
  subst ha
  cases b with
  | none => simp [sameValue]
  | some y => simp [sameValue, eq_comm]

theorem otherValue_eq {α : Type} [DecidableEq α] {a b : Option α} {x y : α} (ha : a = some x) (hb : b = some y) :
    otherValue a b = true ↔ b ≠ some x := by
  subst ha
  subst hb
  rw [otherValue, Option.any_some, Option.any_some, decide_eq_true_iff, ne_eq, ne_eq, Option.some.injEq, eq_comm]

/-- The conditions of a new table: with the table that its variable is bound to, and with the tables of other names. -/
def newConditions (pre : String) (vars : List (Option String)) (var : Option String) (existing : Option Nat)
    (same other : Nat → Nat → SqlPredicate) : List SqlPredicate :=
  existing.toList.map (same vars.length) ++
    ((occurrencesOf pre vars).filter fun o => o.1 ≠ nameOf pre var vars.length).map fun o => other vars.length o.2

section

variable {pre : String} {vars : List (Option String)} {var : Option String} {existing : Option Nat}
  {same other : Nat → Nat → SqlPredicate}

theorem forall_newConditions {Q : SqlPredicate → Prop} (hexisting : ∀ i, existing = some i → i < vars.length)
    (hsame : ∀ i < vars.length, Q (same vars.length i)) (hother : ∀ i < vars.length, Q (other vars.length i)) :
    ∀ p ∈ newConditions pre vars var existing same other, Q p := by
  simp only [newConditions, List.forall_mem_append, List.forall_mem_map, Option.mem_toList]
  refine ⟨fun i hi => hsame i (hexisting i hi), fun o ho => hother o.2 ?_⟩
  exact mem_occurrencesOf (List.mem_filter.mp ho).1

/-- They ask for the row of the table that the variable is bound to, and for other rows than those of other names. -/
theorem newConditions_iff (hpre : IsOwn pre) (hvars : ∀ v ∈ vars, PlainVar v) (hvar : PlainVar var) {ids : List Int64}
    (hlen : ids.length = vars.length) {x : Int64} (hdistinct : byVariable (vars.zip ids))
    (hexisting : ∀ i, existing = some i → ∃ v, var = some v ∧ vars[i]? = some (some v))
    (hnone : existing = none → ∀ v, var = some v → some v ∉ vars) (holds : SqlPredicate → Bool) (get : Nat → Option Int64)
    (hsame : ∀ i j, holds (same i j) = sameValue (get i) (get j))
    (hother : ∀ i j, holds (other i j) = otherValue (get i) (get j)) (hlast : get vars.length = some x)
    (hbefore : ∀ j < vars.length, get j = ids[j]?) :
    (∀ p ∈ newConditions pre vars var existing same other, holds p = true) ↔
      ∀ q ∈ vars.zip ids, q.2 = x ↔ ∃ v, q.1 = some v ∧ var = some v := by
  rw [← conditions_iff hpre hvars hvar hlen x hdistinct hexisting hnone]
  simp only [newConditions, List.mem_append, or_imp, forall_and, List.forall_mem_map]
  refine and_congr ?_ ?_
  · refine forall_congr' fun i => ?_
    rw [Option.mem_toList]
    refine imp_congr_right fun hi => ?_
    obtain ⟨v, -, hv⟩ := hexisting i hi
    rw [hsame, sameValue_eq hlast, hbefore i (List.getElem?_eq_some_iff.mp hv).1]
  · refine forall_congr' fun o => imp_congr_right fun ho => ?_
    have hlt := mem_occurrencesOf (List.mem_filter.mp ho).1
    obtain ⟨y, hget⟩ : ∃ y, ids[o.2]? = some y := ⟨_, List.getElem?_eq_getElem (hlen ▸ hlt)⟩
    rw [hother, otherValue_eq hlast ((hbefore o.2 hlt).trans hget), hbefore o.2 hlt]

end

/-! ## New tables -/

/-- The row of a new table, and those of the tables before it. -/
theorem nodeId_last (vs : List (IvmNode J)) (es : List (IvmEdge J)) (v : IvmNode J) :
    (envOf (vs ++ [v]) es).nodeId vs.length = some v.nodeId := by
  simp [nodeId_envOf]

theorem nodeId_before {vs : List (IvmNode J)} {es : List (IvmEdge J)} {v : IvmNode J} {i : Nat} (hi : i < vs.length) :
    (envOf (vs ++ [v]) es).nodeId i = (vs.map IvmNode.nodeId)[i]? := by
  rw [nodeId_envOf, List.getElem?_append_left hi, List.getElem?_map]

theorem relId_last (vs : List (IvmNode J)) (es : List (IvmEdge J)) (e : IvmEdge J) :
    (envOf vs (es ++ [e])).relId es.length = some e.relId := by
  simp [SqlEnv.relId, envOf]

theorem relId_before {vs : List (IvmNode J)} {es : List (IvmEdge J)} {e : IvmEdge J} {i : Nat} (hi : i < es.length) :
    (envOf vs (es ++ [e])).relId i = (es.map IvmEdge.relId)[i]? := by
  have hbefore : (es ++ [e])[i]? = es[i]? := List.getElem?_append_left hi
  rw [List.getElem?_map, ← hbefore]
  rfl

/-- What a new table for a node adds: an occurrence, perhaps a variable, and conditions that make it the row of its variable. -/
structure NewNode (B : Jsonb J) (c c' : SqlCompiler) (nvars evars : List (Option String)) (var : Option String)
    (added : List SqlPredicate) : Prop where
  named : Named c' (nvars ++ [var]) evars
  fromSql : c'.fromSql = c.fromSql
  predicates : c'.predicates = c.predicates ++ added
  pattern : ∀ p ∈ added, isPattern p = true
  holds : ∀ (vs : List (IvmNode J)) (es : List (IvmEdge J)) (v : IvmNode J), vs.length = nvars.length →
    byVariable (nvars.zip (vs.map IvmNode.nodeId)) →
    ((∀ p ∈ added, p.holds B (envOf (vs ++ [v]) es) = true) ↔
      ∀ q ∈ nvars.zip (vs.map IvmNode.nodeId), q.2 = v.nodeId ↔ ∃ x, q.1 = some x ∧ var = some x)

/-- The state behind a new node. -/
theorem Named.addNode {c : SqlCompiler} {nvars evars : List (Option String)} (hc : Named c nvars evars) {var : Option String}
    (hplain : PlainVar var) {bindings : Std.ExtTreeMap String SqlAlias} {added : List SqlPredicate}
    (hbindings : ∀ v, bindings[v]? = tableOf (nvars ++ [var]) evars v) (hkind : ∀ v, var = some v → some v ∉ evars)
    (hadded : ∀ p ∈ added, below (nvars.length + 1) evars.length p) :
    Named { c with
      bindings := bindings
      predicates := c.predicates ++ added
      nodeOccurrences := occurrencesOf "__anonymous_node_" nvars ++ [(nameOf "__anonymous_node_" var nvars.length, nvars.length)]
      nextNode := nvars.length + 1 } (nvars ++ [var]) evars where
  nodes := (occurrencesOf_append _ _ _).symm
  edges := hc.edges
  nextNode := by simp
  nextEdge := hc.nextEdge
  plainNodes := by
    simp only [List.forall_mem_append, List.forall_mem_singleton]
    exact ⟨hc.plainNodes, hplain⟩
  plainEdges := hc.plainEdges
  bindings := hbindings
  kinds v h := by
    rcases List.mem_append.mp h with h | h
    · exact hc.kinds v h
    · exact hkind v (List.mem_singleton.mp h).symm
  bounded p hp := by
    rw [List.length_append]
    rcases List.mem_append.mp hp with hp | hp
    · exact below_mono (hc.bounded p hp) (Nat.le_succ _) le_rfl
    · exact hadded p hp

theorem Named.addEdge {c : SqlCompiler} {nvars evars : List (Option String)} (hc : Named c nvars evars) {var : Option String}
    (hplain : PlainVar var) {bindings : Std.ExtTreeMap String SqlAlias} {added : List SqlPredicate}
    (hbindings : ∀ v, bindings[v]? = tableOf nvars (evars ++ [var]) v) (hkind : ∀ v, var = some v → some v ∉ nvars)
    (hadded : ∀ p ∈ added, below nvars.length (evars.length + 1) p) :
    Named { c with
      bindings := bindings
      predicates := c.predicates ++ added
      edgeOccurrences := occurrencesOf "__anonymous_edge_" evars ++ [(nameOf "__anonymous_edge_" var evars.length, evars.length)]
      nextEdge := evars.length + 1 } nvars (evars ++ [var]) where
  nodes := hc.nodes
  edges := (occurrencesOf_append _ _ _).symm
  nextNode := hc.nextNode
  nextEdge := by simp
  plainNodes := hc.plainNodes
  plainEdges := by
    simp only [List.forall_mem_append, List.forall_mem_singleton]
    exact ⟨hc.plainEdges, hplain⟩
  bindings := hbindings
  kinds v h := by
    intro hmem
    rcases List.mem_append.mp hmem with hmem | hmem
    · exact hc.kinds v h hmem
    · exact hkind v (List.mem_singleton.mp hmem).symm h
  bounded p hp := by
    rw [List.length_append]
    rcases List.mem_append.mp hp with hp | hp
    · exact below_mono (hc.bounded p hp) le_rfl (Nat.le_succ _)
    · exact hadded p hp

/-- A name that is not bound is bound to the new table if it is a variable. -/
theorem insert_eq {bindings : Std.ExtTreeMap String SqlAlias} (pre : String) (var : Option String) (n : Nat) (a : SqlAlias)
    (v : String) :
    (if var.isSome then bindings.insert (nameOf pre var n) a else bindings)[v]? = if var = some v then some a else bindings[v]? := by
  cases var with
  | none => simp
  | some w => simp [nameOf, Std.ExtTreeMap.getElem?_insert]

/-- A name that is bound is a variable. -/
theorem exists_of_bound {c : SqlCompiler} {nvars evars : List (Option String)} (hc : Named c nvars evars) {pre : String}
    (hpre : IsOwn pre) {var : Option String} {n : Nat} {a : SqlAlias} (h : c.bindings[nameOf pre var n]? = some a) :
    ∃ v, var = some v ∧ tableOf nvars evars v = some a := by
  cases var with
  | some v => exact ⟨v, rfl, hc.bindings v ▸ h⟩
  | none => exact absurd (h.symm.trans (not_bound_own hc hpre _)) (by simp)

/-- A variable whose name is not bound has no table. -/
theorem tableOf_of_unbound {c : SqlCompiler} {nvars evars : List (Option String)} (hc : Named c nvars evars) {pre : String}
    {var : Option String} {n : Nat} (h : c.bindings[nameOf pre var n]? = none) (v : String) (hv : var = some v) :
    tableOf nvars evars v = none := by
  subst hv
  exact hc.bindings v ▸ h

theorem newNode_spec {c c' : SqlCompiler} {nvars evars : List (Option String)} (hc : Named c nvars evars) {node : NodePattern}
    (hplain : PlainVar node.var) {i : Nat} (h : c.newNode node = .ok (i, c')) :
    i = nvars.length ∧ ∃ added, NewNode B c c' nvars evars node.var added := by
  have hvariable : nodeVariable node (nvars.length + 1) = nameOf "__anonymous_node_" node.var nvars.length := rfl
  -- The conditions are the same in every case, but for the table that the variable is bound to.
  have hnew : ∀ {existing : Option Nat} {bindings : Std.ExtTreeMap String SqlAlias},
      (∀ i, existing = some i → ∃ v, node.var = some v ∧ nvars[i]? = some (some v)) →
      (existing = none → ∀ v, node.var = some v → some v ∉ nvars) →
      (∀ v, bindings[v]? = tableOf (nvars ++ [node.var]) evars v) → (∀ v, node.var = some v → some v ∉ evars) →
      ∃ added, NewNode B c { c with
        bindings := bindings
        predicates := c.predicates ++
          newConditions "__anonymous_node_" nvars node.var existing SqlPredicate.sameNode SqlPredicate.otherNode
        nodeOccurrences := occurrencesOf "__anonymous_node_" nvars ++
          [(nameOf "__anonymous_node_" node.var nvars.length, nvars.length)]
        nextNode := nvars.length + 1 } nvars evars node.var added := by
    intro existing bindings hexisting hnone hbindings hkind
    have hplace : ∀ i, existing = some i → i < nvars.length := fun i hi => by
      obtain ⟨v, -, hv⟩ := hexisting i hi
      exact (List.getElem?_eq_some_iff.mp hv).1
    have hadded : ∀ p ∈ newConditions "__anonymous_node_" nvars node.var existing SqlPredicate.sameNode SqlPredicate.otherNode,
        isPattern p = true ∧ below (nvars.length + 1) evars.length p :=
      forall_newConditions hplace (fun i hi => ⟨rfl, Nat.lt_succ_self _, Nat.lt_succ_of_lt hi⟩)
        fun i hi => ⟨rfl, Nat.lt_succ_self _, Nat.lt_succ_of_lt hi⟩
    exact ⟨_, {
      named := hc.addNode hplain hbindings hkind fun p hp => (hadded p hp).2
      fromSql := rfl
      predicates := rfl
      pattern := fun p hp => (hadded p hp).1
      holds := fun vs es v hlen hdistinct =>
        newConditions_iff .node hc.plainNodes hplain (by rw [List.length_map, hlen]) hdistinct hexisting hnone
          (SqlPredicate.holds B (envOf (vs ++ [v]) es)) (envOf (vs ++ [v]) es).nodeId (fun i j => rfl) (fun i j => rfl)
          (hlen ▸ nodeId_last vs es v) (fun j hj => nodeId_before (hlen ▸ hj)) }⟩
  rw [SqlCompiler.newNode, hc.nextNode, hvariable, hc.nodes] at h
  cases hb : c.bindings[nameOf "__anonymous_node_" node.var nvars.length]? with
  | none =>
    simp only [hb] at h
    obtain ⟨rfl, rfl⟩ := Prod.mk.inj (Except.ok.inj h)
    have hunbound := tableOf_of_unbound hc hb
    refine ⟨rfl, @hnew none _ nofun (fun _ v hv => (tableOf_eq_none.mp (hunbound v hv)).1) (fun v => ?_)
      (fun v hv => (tableOf_eq_none.mp (hunbound v hv)).2)⟩
    rw [insert_eq, hc.bindings, tableOf_concat_node _ hunbound]
  | some a =>
    obtain ⟨v, hv, hbound⟩ := exists_of_bound hc .node hb
    cases a with
    | node existing =>
      simp only [hb] at h
      obtain ⟨rfl, rfl⟩ := Prod.mk.inj (Except.ok.inj h)
      have hplace := node_of_tableOf hbound
      have hsame : ∀ w, node.var = some w → v = w := fun w hw => Option.some.inj (hv.symm.trans hw)
      refine ⟨rfl, @hnew (some existing) c.bindings (fun i hi => ⟨v, hv, Option.some.inj hi ▸ hplace⟩) nofun (fun w => ?_)
        (fun w hw => hc.kinds w (hsame w hw ▸ List.mem_of_getElem? hplace))⟩
      rw [hc.bindings, tableOf, tableOf, hv, idxOf?_concat_of_mem (List.mem_of_getElem? hplace)]
    | edge existing =>
      simp only [hb] at h
      cases h

/-- What a new table for a relationship adds. -/
structure NewEdge (B : Jsonb J) (c c' : SqlCompiler) (nvars evars : List (Option String)) (var : Option String)
    (added : List SqlPredicate) : Prop where
  named : Named c' nvars (evars ++ [var])
  fromSql : c'.fromSql = c.fromSql
  predicates : c'.predicates = c.predicates ++ added
  pattern : ∀ p ∈ added, isPattern p = true
  holds : ∀ (vs : List (IvmNode J)) (es : List (IvmEdge J)) (e : IvmEdge J), es.length = evars.length →
    byVariable (evars.zip (es.map IvmEdge.relId)) →
    ((∀ p ∈ added, p.holds B (envOf vs (es ++ [e])) = true) ↔
      ∀ q ∈ evars.zip (es.map IvmEdge.relId), q.2 = e.relId ↔ ∃ x, q.1 = some x ∧ var = some x)

theorem newEdge_spec {c c' : SqlCompiler} {nvars evars : List (Option String)} (hc : Named c nvars evars) {rel : RelPattern}
    (hplain : PlainVar rel.var) {i : Nat} (h : c.newEdge rel = .ok (i, c')) :
    i = evars.length ∧ ∃ added, NewEdge B c c' nvars evars rel.var added := by
  have hvariable : edgeVariable rel (evars.length + 1) = nameOf "__anonymous_edge_" rel.var evars.length := rfl
  have hnew : ∀ {existing : Option Nat} {bindings : Std.ExtTreeMap String SqlAlias},
      (∀ i, existing = some i → ∃ v, rel.var = some v ∧ evars[i]? = some (some v)) →
      (existing = none → ∀ v, rel.var = some v → some v ∉ evars) →
      (∀ v, bindings[v]? = tableOf nvars (evars ++ [rel.var]) v) → (∀ v, rel.var = some v → some v ∉ nvars) →
      ∃ added, NewEdge B c { c with
        bindings := bindings
        predicates := c.predicates ++
          newConditions "__anonymous_edge_" evars rel.var existing SqlPredicate.sameEdge SqlPredicate.otherEdge
        edgeOccurrences := occurrencesOf "__anonymous_edge_" evars ++
          [(nameOf "__anonymous_edge_" rel.var evars.length, evars.length)]
        nextEdge := evars.length + 1 } nvars evars rel.var added := by
    intro existing bindings hexisting hnone hbindings hkind
    have hplace : ∀ i, existing = some i → i < evars.length := fun i hi => by
      obtain ⟨v, -, hv⟩ := hexisting i hi
      exact (List.getElem?_eq_some_iff.mp hv).1
    have hadded : ∀ p ∈ newConditions "__anonymous_edge_" evars rel.var existing SqlPredicate.sameEdge SqlPredicate.otherEdge,
        isPattern p = true ∧ below nvars.length (evars.length + 1) p :=
      forall_newConditions hplace (fun i hi => ⟨rfl, Nat.lt_succ_self _, Nat.lt_succ_of_lt hi⟩)
        fun i hi => ⟨rfl, Nat.lt_succ_self _, Nat.lt_succ_of_lt hi⟩
    exact ⟨_, {
      named := hc.addEdge hplain hbindings hkind fun p hp => (hadded p hp).2
      fromSql := rfl
      predicates := rfl
      pattern := fun p hp => (hadded p hp).1
      holds := fun vs es e hlen hdistinct =>
        newConditions_iff .edge hc.plainEdges hplain (by rw [List.length_map, hlen]) hdistinct hexisting hnone
          (SqlPredicate.holds B (envOf vs (es ++ [e]))) (envOf vs (es ++ [e])).relId (fun i j => rfl) (fun i j => rfl)
          (hlen ▸ relId_last vs es e) (fun j hj => relId_before (hlen ▸ hj)) }⟩
  rw [SqlCompiler.newEdge, hc.nextEdge, hvariable, hc.edges] at h
  cases hb : c.bindings[nameOf "__anonymous_edge_" rel.var evars.length]? with
  | none =>
    simp only [hb] at h
    obtain ⟨rfl, rfl⟩ := Prod.mk.inj (Except.ok.inj h)
    have hunbound := tableOf_of_unbound hc hb
    refine ⟨rfl, @hnew none _ nofun (fun _ v hv => (tableOf_eq_none.mp (hunbound v hv)).2) (fun v => ?_)
      (fun v hv => (tableOf_eq_none.mp (hunbound v hv)).1)⟩
    rw [insert_eq, hc.bindings, tableOf_concat_edge _ hunbound]
  | some a =>
    obtain ⟨v, hv, hbound⟩ := exists_of_bound hc .edge hb
    cases a with
    | edge existing =>
      simp only [hb] at h
      obtain ⟨rfl, rfl⟩ := Prod.mk.inj (Except.ok.inj h)
      have hplace := edge_of_tableOf hbound
      have hsame : ∀ w, rel.var = some w → v = w := fun w hw => Option.some.inj (hv.symm.trans hw)
      refine ⟨rfl, @hnew (some existing) c.bindings (fun i hi => ⟨v, hv, Option.some.inj hi ▸ hplace⟩) nofun (fun w => ?_)
        (fun w hw => fun hmem => hc.kinds w hmem (hsame w hw ▸ List.mem_of_getElem? hplace))⟩
      rw [hc.bindings, tableOf, tableOf, hv, idxOf?_concat_of_mem (List.mem_of_getElem? hplace)]
    | node existing =>
      simp only [hb] at h
      cases h

end SqlStepAux
end PgEddy
