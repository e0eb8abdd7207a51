import Mathlib.Data.List.Forall2
import PgEddy.Value

/-!
# What JSON is read as

One statement for each shape of JSON that `toJson` makes: what `jsonToValue` finds in it.
-/

namespace PgEddy

open Binary64 SortedMap Text

variable {ch : Chrono}

namespace Value

/-- Induction over a value, with the induction hypothesis at every node and every relationship of a path. -/
@[elab_as_elim]
theorem path_induction {motive : Value ch → Prop}
    (node : ∀ nodeId labels properties, motive (.node nodeId labels properties))
    (edge : ∀ edgeId relType source target properties, motive (.edge edgeId relType source target properties))
    (path : ∀ nodes rels, (∀ v ∈ nodes, motive v) → (∀ v ∈ rels, motive v) → motive (.path nodes rels))
    (int : ∀ i, motive (.int i)) (float : ∀ f, motive (.float f)) (str : ∀ s, motive (.str s))
    (bool : ∀ b, motive (.bool b)) (null : motive .null) (json : ∀ v, motive (.json v))
    (temporal : ∀ tv, motive (.temporal tv)) (duration : ∀ d, motive (.duration d)) (v : Value ch) : motive v :=
  @Value.rec ch motive (fun vs => ∀ v ∈ vs, motive v) node edge path int float str bool null json temporal duration
    (fun _ h => absurd h List.not_mem_nil) (fun _ _ hv hvs => List.forall_mem_cons.mpr ⟨hv, hvs⟩) v

theorem toJsons_eq (vs : List (Value ch)) : toJsons vs = vs.map toJson := by
  induction vs with
  | nil => rfl
  | cons v vs ih => rw [toJsons, ih, List.map_cons]

/-! ## Objects -/

theorem nodeFields_eq (nodeId : Int64) (labels : List String) (properties : List (String × Json)) :
    nodeFields nodeId labels properties
      = [("labels", .array (labels.map Json.string)), ("node_id", jsonInt nodeId), ("properties", .object properties)] := by
  unfold nodeFields jsonMap
  simp +decide only [List.foldl, SortedMap.insert, ↓reduceIte]

theorem edgeFields_eq (edgeId : Int64) (relType : String) (source target : Int64) (properties : List (String × Json)) :
    edgeFields edgeId relType source target properties
      = [("properties", .object properties), ("rel_id", jsonInt edgeId), ("rel_type", .string relType),
          ("source_node_id", jsonInt source), ("target_node_id", jsonInt target)] := by
  unfold edgeFields jsonMap
  simp +decide only [List.foldl, SortedMap.insert, ↓reduceIte]

end Value

theorem JsonNumber.asI64_ofI64 (i : Int64) : (JsonNumber.ofI64 i).asI64 = some i := by
  unfold JsonNumber.ofI64
  split
  · rfl
  · rename_i h
    unfold JsonNumber.asI64
    simp only
    rw [if_pos (JsonNumber.toNat_toUInt64 h), Int64.toInt64_toUInt64]

theorem numberValue_ofI64 (i : Int64) : numberValue (.ofI64 i) = (.int i : Value ch) := by
  unfold numberValue
  rw [JsonNumber.asI64_ofI64]

theorem filterMap_asString (labels : List String) : (labels.map Json.string).filterMap asString = labels := by
  induction labels with
  | nil => rfl
  | cons l labels ih => simp only [List.map_cons, List.filterMap_cons, asString, ih]

/-- The object of a node is read as that node. -/
theorem objectValue_nodeFields (nodeId : Int64) (labels : List String) (properties : List (String × Json)) :
    objectValue (Value.nodeFields nodeId labels properties) = (.node nodeId labels properties : Value ch) := by
  have hnode : asNode? (Value.nodeFields nodeId labels properties) = some (.node nodeId labels properties : Value ch) := by
    rw [Value.nodeFields_eq]
    simp only [asNode?, List.lookup_cons, String.reduceBEq, Value.jsonInt, JsonNumber.asI64_ofI64, filterMap_asString,
      Option.map_some]
  unfold objectValue
  rw [hnode]

/-- The object of an edge is read as that edge. -/
theorem objectValue_edgeFields (edgeId : Int64) (relType : String) (source target : Int64)
    (properties : List (String × Json)) :
    objectValue (Value.edgeFields edgeId relType source target properties)
      = (.edge edgeId relType source target properties : Value ch) := by
  rw [Value.edgeFields_eq]
  simp only [objectValue, asNode?, asEdge?, List.lookup_cons, List.lookup_nil, String.reduceBEq, Value.jsonInt, JsonNumber.asI64_ofI64,
    Option.getD_some]

theorem objectValue_eq_json {m : List (String × Json)} :
    objectValue m = (.json (.object m) : Value ch) ↔ asNode? m = (none : Option (Value ch)) ∧ asEdge? m = (none : Option (Value ch)) := by
  unfold objectValue
  cases hn : (asNode? m : Option (Value ch)) with
  | some v =>
    have hv : v ≠ .json (.object m) := by
      rintro rfl
      unfold asNode? at hn
      split at hn
      · rename_i nid _ _ _ _ _
        cases hid : nid.asI64 <;> rw [hid] at hn <;> cases hn
      · cases hn
    simp [hv]
  | none =>
    cases he : (asEdge? m : Option (Value ch)) with
    | some v =>
      have hv : v ≠ .json (.object m) := by
        rintro rfl
        unfold asEdge? at he
        split at he
        · split at he <;> cases he
        · cases he
      simp [hv]
    | none => simp

/-! ## Strings -/

/-- The text of no number is not the text of a temporal value. -/
theorem tryParseTemporalIso_nan : (tryParseTemporalIso ch "NaN").run = .ok none := by
  rfl

theorem tryParseDurationIso_nan : (tryParseDurationIso "NaN").run = .ok none := by
  rfl

/-- What a string is read as: a float, a temporal value, a duration or itself. -/
theorem stringValue_cases (ch : Chrono) (s : String) :
    (s = "NaN" ∧ stringValue ch s = .ok (.float .nan)) ∨
      (s ≠ "NaN" ∧ ((∃ p, (tryParseTemporalIso ch s).run = .error p ∧ stringValue ch s = .error p) ∨
        (∃ tv, (tryParseTemporalIso ch s).run = .ok (some tv) ∧ stringValue ch s = .ok (.temporal tv)) ∨
        ((tryParseTemporalIso ch s).run = .ok none ∧
          ((∃ p, (tryParseDurationIso s).run = .error p ∧ stringValue ch s = .error p) ∨
            (∃ d, (tryParseDurationIso s).run = .ok (some d) ∧ stringValue ch s = .ok (.duration d)) ∨
            ((tryParseDurationIso s).run = .ok none ∧ stringValue ch s = .ok (.str s)))))) := by
  by_cases hs : s = "NaN"
  · exact Or.inl ⟨hs, if_pos hs⟩
  · refine Or.inr ⟨hs, ?_⟩
    unfold stringValue
    rw [if_neg hs]
    cases (tryParseTemporalIso ch s).run with
    | error p => exact Or.inl ⟨p, rfl, rfl⟩
    | ok o =>
      cases o with
      | some tv => exact Or.inr (Or.inl ⟨tv, rfl, rfl⟩)
      | none =>
        refine Or.inr (Or.inr ⟨rfl, ?_⟩)
        cases (tryParseDurationIso s).run with
        | error p => exact Or.inl ⟨p, rfl, rfl⟩
        | ok o =>
          cases o with
          | some d => exact Or.inr (Or.inl ⟨d, rfl, rfl⟩)
          | none => exact Or.inr (Or.inr ⟨rfl, rfl⟩)

theorem stringValue_eq_str {s : String} :
    stringValue ch s = .ok (.str s) ↔
      s ≠ "NaN" ∧ (tryParseTemporalIso ch s).run = .ok none ∧ (tryParseDurationIso s).run = .ok none := by
  rcases stringValue_cases ch s with ⟨hs, h⟩ | ⟨hs, ⟨p, hp, h⟩ | ⟨tv, htv, h⟩ | ⟨hn, ⟨p, hp, h⟩ | ⟨d, hd, h⟩ | ⟨hd, h⟩⟩⟩ <;>
    simp_all

theorem stringValue_eq_temporal {s : String} {tv : TemporalValue ch} :
    stringValue ch s = .ok (.temporal tv) ↔ (tryParseTemporalIso ch s).run = .ok (some tv) := by
  rcases stringValue_cases ch s with ⟨hs, h⟩ | ⟨hs, ⟨p, hp, h⟩ | ⟨tv, htv, h⟩ | ⟨hn, ⟨p, hp, h⟩ | ⟨d, hd, h⟩ | ⟨hd, h⟩⟩⟩
  · subst hs
    simp [h, tryParseTemporalIso_nan]
  all_goals simp_all

theorem stringValue_eq_duration {s : String} {d : CypherDuration} :
    stringValue ch s = .ok (.duration d) ↔
      (tryParseTemporalIso ch s).run = .ok none ∧ (tryParseDurationIso s).run = .ok (some d) := by
  rcases stringValue_cases ch s with ⟨hs, h⟩ | ⟨hs, ⟨p, hp, h⟩ | ⟨tv, htv, h⟩ | ⟨hn, ⟨p, hp, h⟩ | ⟨d, hd, h⟩ | ⟨hd, h⟩⟩⟩
  · subst hs
    simp [h, tryParseDurationIso_nan]
  all_goals simp_all

/-! ## Paths -/

open Value

/-- The nodes and relationships of a path alternate, from a node on. -/
def Alternates {α : Type} (nodes rels : List α) : Prop := rels.length = nodes.length ∨ rels.length + 1 = nodes.length

theorem alternates_deinterleave {α : Type} (l : List α) : Alternates (deinterleave l).1 (deinterleave l).2 := by
  fun_induction deinterleave l with
  | case1 => exact Or.inl rfl
  | case2 n => exact Or.inr rfl
  | case3 n r rest ih =>
    unfold Alternates at ih ⊢
    simp only [List.length_cons]
    omega

theorem interleave_deinterleave {α : Type} (l : List α) : interleave (deinterleave l).1 (deinterleave l).2 = l := by
  fun_induction deinterleave l with
  | case1 => rfl
  | case2 n => rfl
  | case3 n r rest ih => rw [interleave, ih]

theorem deinterleave_interleave {α : Type} {nodes rels : List α} (h : Alternates nodes rels) :
    deinterleave (interleave nodes rels) = (nodes, rels) := by
  fun_induction interleave nodes rels with
  | case1 rels =>
    have hrels : rels = [] := by
      unfold Alternates at h
      simpa using h
    rw [hrels]
    rfl
  | case2 n nodes ih =>
    have hnodes : nodes = [] := by
      unfold Alternates at h
      simpa using h
    rw [hnodes]
    rfl
  | case3 n nodes r rels ih =>
    have h' : Alternates nodes rels := by
      unfold Alternates at h ⊢
      simp only [List.length_cons] at h
      omega
    rw [deinterleave, ih h']

theorem interleave_map {α β : Type} (f : α → β) (nodes rels : List α) :
    interleave (nodes.map f) (rels.map f) = (interleave nodes rels).map f := by
  fun_induction interleave nodes rels with
  | case1 rels => rfl
  | case2 n nodes ih =>
    rw [List.map_nil] at ih
    rw [List.map_cons, List.map_nil, interleave, ih, List.map_cons]
  | case3 n nodes r rels ih => rw [List.map_cons, List.map_cons, interleave, ih, List.map_cons, List.map_cons]

theorem mem_interleave {α : Type} {nodes rels : List α} (h : Alternates nodes rels) (v : α) :
    v ∈ interleave nodes rels ↔ v ∈ nodes ∨ v ∈ rels := by
  fun_induction interleave nodes rels with
  | case1 rels =>
    have hrels : rels = [] := by
      unfold Alternates at h
      simpa using h
    simp [hrels]
  | case2 n nodes ih =>
    have hnodes : nodes = [] := by
      unfold Alternates at h
      simpa using h
    simp [hnodes, interleave]
  | case3 n nodes r rels ih =>
    have h' : Alternates nodes rels := by
      unfold Alternates at h ⊢
      simp only [List.length_cons] at h
      omega
    simp only [List.mem_cons, ih h']
    tauto

/-- An array of alternating nodes and relationships looks like a path when every node and every relationship looks like one. -/
theorem isPathFrom_interleave {nodes rels : List Json} (h : Alternates nodes rels) :
    isPathFrom true (interleave nodes rels) = true ↔
      (∀ v ∈ nodes, isPathElement "node_id" v = true) ∧ ∀ v ∈ rels, isPathElement "rel_id" v = true := by
  fun_induction interleave nodes rels with
  | case1 rels =>
    have hrels : rels = [] := by
      unfold Alternates at h
      simpa using h
    simp [hrels, isPathFrom]
  | case2 n nodes ih =>
    have hnodes : nodes = [] := by
      unfold Alternates at h
      simpa using h
    simp [hnodes, interleave, isPathFrom]
  | case3 n nodes r rels ih =>
    have h' : Alternates nodes rels := by
      unfold Alternates at h ⊢
      simp only [List.length_cons] at h
      omega
    simp only [isPathFrom, Bool.and_eq_true, Bool.not_true, Bool.not_false, ih h', List.forall_mem_cons, if_true,
      Bool.false_eq_true, if_false]
    tauto

theorem jsonToValues_eq_ok {items : List Json} {vals : List (Value ch)} :
    jsonToValues ch items = .ok vals ↔ List.Forall₂ (fun item v => jsonToValue ch item = .ok v) items vals := by
  induction items generalizing vals with
  | nil =>
    unfold jsonToValues
    constructor
    · intro h
      cases h
      exact .nil
    · intro h
      cases h
      rfl
  | cons item items ih =>
    unfold jsonToValues
    constructor
    · intro h
      cases hv : jsonToValue ch item with
      | error p => rw [hv] at h; cases h
      | ok v =>
        cases hvs : jsonToValues ch items with
        | error p => rw [hv, hvs] at h; cases h
        | ok vs =>
          rw [hv, hvs] at h
          cases h
          exact .cons hv (ih.mp hvs)
    · intro h
      cases h with
      | cons hv hvs =>
        rw [hv, ih.mpr hvs]
        rfl

end PgEddy
