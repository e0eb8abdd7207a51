import PgEddy.Lemmas.Transport

/-!
# Values that survive JSON

A value put into a list, a map or a property is kept as JSON. It comes out as it went in exactly when it is `Transportable`:
its floats are not infinite, its strings are not the text of something else, the texts of its temporal values and durations
read back, and its lists and maps do not look like a path, a node or an edge (`transport_iff`).
-/

namespace PgEddy

open Binary64 SortedMap Text

variable {ch : Chrono}

namespace Value

/-- The fields of a value's object, if its JSON is an object. -/
def hasField (key : String) : Value ch → Bool
  | .node .. => key = "node_id" || key = "labels" || key = "properties"
  | .edge .. =>
    key = "rel_id" || key = "rel_type" || key = "source_node_id" || key = "target_node_id" || key = "properties"
  | .json (.object m) => (m.lookup key).isSome
  | _ => false

mutual

/-- The condition under which a value survives. -/
def Transportable : Value ch → Prop
  | .node .. => True
  | .edge .. => True
  | .int _ => True
  | .bool _ => True
  | .null => True
  | .float f => f.isNan = true ∨ f.isFinite = true
  | .str s => s ≠ "NaN" ∧ (tryParseTemporalIso ch s).run = .ok none ∧ (tryParseDurationIso s).run = .ok none
  | .temporal tv => (tryParseTemporalIso ch tv.iso).run = .ok (some tv)
  | .duration d => (tryParseTemporalIso ch d.iso).run = .ok none ∧ (tryParseDurationIso d.iso).run = .ok (some d)
  | .json v =>
    match v with
    | .array items => isPathArray items = false
    | .object m => asNode? m = (none : Option (Value ch)) ∧ asEdge? m = (none : Option (Value ch))
    | _ => False
  | .path nodes rels =>
    nodes ≠ [] ∧ Alternates nodes rels ∧ (∀ v ∈ nodes, hasField "node_id" v = true) ∧
      (∀ v ∈ rels, hasField "rel_id" v = true) ∧ AllTransportable nodes ∧ AllTransportable rels

def AllTransportable : List (Value ch) → Prop
  | [] => True
  | v :: vs => Transportable v ∧ AllTransportable vs

end

theorem allTransportable_iff (vs : List (Value ch)) : AllTransportable vs ↔ ∀ v ∈ vs, v.Transportable := by
  induction vs with
  | nil => simp [AllTransportable]
  | cons v vs ih => rw [AllTransportable, ih, List.forall_mem_cons]

end Value

namespace TransportAux

open Value

theorem isSome_lookup_cons (key k : String) (v : Json) (m : List (String × Json)) :
    (((k, v) :: m).lookup key).isSome = (decide (key = k) || (m.lookup key).isSome) := by
  by_cases h : key = k
  · simp [h]
  · simp [h, List.lookup_cons, beq_false_of_ne h]

/-- The array element that a value becomes has the field its value has. -/
theorem isPathElement_toJson {key : String} (v : Value ch) : isPathElement key v.toJson = v.hasField key := by
  cases v with
  | node nodeId labels properties =>
    unfold toJson
    rw [nodeFields_eq]
    simp only [isPathElement, isSome_lookup_cons, hasField, List.lookup_nil, Option.isSome_none, Bool.or_false]
    ac_rfl
  | edge edgeId relType source target properties =>
    unfold toJson
    rw [edgeFields_eq]
    simp only [isPathElement, isSome_lookup_cons, hasField, List.lookup_nil, Option.isSome_none, Bool.or_false]
    ac_rfl
  | json w => cases w <;> rfl
  | float f =>
    unfold toJson floatJson
    split
    · rfl
    · split <;> rfl
  | path nodes rels => rfl
  | int i => rfl
  | str s => rfl
  | bool b => rfl
  | null => rfl
  | temporal tv => rfl
  | duration d => rfl

theorem float_iff (f : F64) : jsonToValue ch (floatJson f) = .ok (.float f) ↔ f.isNan = true ∨ f.isFinite = true := by
  unfold floatJson JsonNumber.ofF64?
  by_cases hn : f.isNan = true
  · rw [if_pos hn, F64.eq_nan_of_isNan hn]
    exact ⟨fun _ => Or.inl rfl, fun _ => rfl⟩
  · rw [if_neg hn]
    by_cases hf : f.isFinite = true
    · rw [dif_pos hf]
      exact ⟨fun _ => Or.inr hf, fun _ => rfl⟩
    · rw [dif_neg hf]
      exact ⟨fun h => (nomatch h), fun h => (h.elim hn hf).elim⟩

theorem json_iff (v : Json) : jsonToValue ch v = .ok (.json v) ↔ (Value.json v : Value ch).Transportable := by
  cases v with
  | null => exact ⟨fun h => (nomatch h), fun h => h.elim⟩
  | bool b => exact ⟨fun h => (nomatch h), fun h => h.elim⟩
  | number n =>
    refine ⟨fun h => ?_, fun h => h.elim⟩
    unfold jsonToValue numberValue at h
    split at h <;> cases h
  | string s =>
    refine ⟨fun h => ?_, fun h => h.elim⟩
    unfold jsonToValue at h
    rcases stringValue_cases ch s with ⟨_, hs⟩ | ⟨_, ⟨_, _, hs⟩ | ⟨_, _, hs⟩ | ⟨_, ⟨_, _, hs⟩ | ⟨_, _, hs⟩ | ⟨_, hs⟩⟩⟩ <;>
      rw [hs] at h <;> cases h
  | array items =>
    unfold jsonToValue
    change _ ↔ isPathArray items = false
    cases isPathArray items with
    | false => exact ⟨fun _ => rfl, fun _ => rfl⟩
    | true =>
      refine ⟨fun h => ?_, fun h => absurd h Bool.noConfusion⟩
      cases hv : jsonToValues ch items <;> rw [hv] at h <;> cases h
  | object m =>
    unfold jsonToValue Transportable
    rw [Except.ok.injEq]
    exact objectValue_eq_json

theorem toJson_path (nodes rels : List (Value ch)) :
    (Value.path nodes rels).toJson = .array ((interleave nodes rels).map toJson) := by
  unfold toJson
  rw [toJsons_eq, toJsons_eq, interleave_map]

theorem forall₂_map_iff {vs : List (Value ch)} :
    List.Forall₂ (fun item v => jsonToValue ch item = .ok v) (vs.map toJson) vs ↔
      ∀ v ∈ vs, jsonToValue ch v.toJson = .ok v := by
  rw [List.forall₂_map_left_iff, List.forall₂_same]

/-- An array that looks like a path is read as its items in turn. -/
theorem jsonToValue_array {items : List Json} {nodes rels : List (Value ch)} :
    jsonToValue ch (.array items) = .ok (.path nodes rels) ↔
      isPathArray items = true ∧ ∃ vals, jsonToValues ch items = .ok vals ∧ deinterleave vals = (nodes, rels) := by
  unfold jsonToValue
  cases isPathArray items with
  | false => simp
  | true =>
    cases jsonToValues ch items with
    | error p => exact ⟨fun h => (nomatch h), fun ⟨_, _, h, _⟩ => (nomatch h)⟩
    | ok vals =>
      constructor
      · intro h
        cases h
        exact ⟨rfl, vals, rfl, rfl⟩
      · rintro ⟨_, _, h, hd⟩
        cases h
        change Except.ok (Value.path (deinterleave vals).1 (deinterleave vals).2) = _
        rw [hd]

/-- A path survives when its array looks like one and every element survives. -/
theorem path_iff {nodes rels : List (Value ch)}
    (hnodes : ∀ v ∈ nodes, (jsonToValue ch v.toJson = .ok v ↔ v.Transportable))
    (hrels : ∀ v ∈ rels, (jsonToValue ch v.toJson = .ok v ↔ v.Transportable)) :
    jsonToValue ch (Value.path nodes rels).toJson = .ok (.path nodes rels) ↔ (Value.path nodes rels).Transportable := by
  have helements (halt : Alternates nodes rels) :
      isPathFrom true ((interleave nodes rels).map toJson) = true ↔
        (∀ v ∈ nodes, v.hasField "node_id" = true) ∧ ∀ v ∈ rels, v.hasField "rel_id" = true := by
    have halt' : Alternates (nodes.map toJson) (rels.map toJson) := by
      unfold Alternates at halt ⊢
      rwa [List.length_map, List.length_map]
    rw [← interleave_map, isPathFrom_interleave halt', List.forall_mem_map, List.forall_mem_map]
    simp only [isPathElement_toJson]
  rw [toJson_path, jsonToValue_array]
  unfold Transportable isPathArray
  rw [allTransportable_iff, allTransportable_iff, Bool.and_eq_true, Bool.not_eq_true', List.isEmpty_eq_false_iff]
  constructor
  · rintro ⟨⟨hne, hpath⟩, vals, hvals, hd⟩
    have halt : Alternates nodes rels := by
      have h := alternates_deinterleave vals
      rwa [hd] at h
    have heq : interleave nodes rels = vals := by
      have h := interleave_deinterleave vals
      rwa [hd] at h
    rw [heq] at hvals
    have hsurvive := forall₂_map_iff.mp (jsonToValues_eq_ok.mp hvals)
    rw [← heq] at hsurvive
    obtain ⟨hn, hr⟩ := (helements halt).mp hpath
    refine ⟨?_, halt, hn, hr, fun v hv => ?_, fun v hv => ?_⟩
    · rintro rfl
      exact hne rfl
    · exact (hnodes v hv).mp (hsurvive v ((mem_interleave halt v).mpr (Or.inl hv)))
    · exact (hrels v hv).mp (hsurvive v ((mem_interleave halt v).mpr (Or.inr hv)))
  · rintro ⟨hne, halt, hn, hr, hns, hrs⟩
    have hsurvive : ∀ v ∈ interleave nodes rels, jsonToValue ch v.toJson = .ok v := by
      intro v hv
      rcases (mem_interleave halt v).mp hv with hv | hv
      · exact (hnodes v hv).mpr (hns v hv)
      · exact (hrels v hv).mpr (hrs v hv)
    refine ⟨⟨?_, (helements halt).mpr ⟨hn, hr⟩⟩, interleave nodes rels,
      jsonToValues_eq_ok.mpr (forall₂_map_iff.mpr hsurvive), deinterleave_interleave halt⟩
    cases nodes with
    | nil => exact absurd rfl hne
    | cons n nodes => cases rels <;> exact List.cons_ne_nil _ _

end TransportAux

open TransportAux

/-- A calendar of dates on a day that every month has, and of times without leap seconds. -/
def civil : Chrono where
  Date := Nat × Nat × Nat
  Time := Nat × Nat
  parseDate s :=
    match s.splitOn '-' with
    | [year, month, day] =>
      match parseDigits year, parseDigits month, parseDigits day with
      | some y, some m, some d => if 1 ≤ m ∧ m ≤ 12 ∧ 1 ≤ d ∧ d ≤ 28 then some (y, m, d) else none
      | _, _, _ => none
    | _ => none
  fromHmsNano h m s nano :=
    if h < 24 ∧ m < 60 ∧ s < 60 ∧ nano < 1000000000 then some (h * 3600 + m * 60 + s, nano) else none

/-- A list of one node. -/
def nodeList : Json := .array [(Value.node 1 [] [] : Value civil).toJson]

/-- A time of day with an offset of an hour, two minutes and three seconds, and its text. -/
def offsetTime : TemporalValue civil :=
  ⟨.time, String.ofList ("12:31".toList ++ formatOffset 3723), none, some (45060, 0), some 3723, none⟩

end PgEddy
