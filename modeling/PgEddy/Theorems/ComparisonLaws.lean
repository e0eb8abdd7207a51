import Mathlib.Data.List.Perm.Subperm
import PgEddy.Lemmas.Comparisons
import PgEddy.Theorems.ValueTransport

/-!
# The comparison operators agree with each other

`<>` is the negation of `=`, and `<` and `<=` are `>` and `>=` the other way round, for any two values. `=` gives the same
answer in both orders too, except for what it reads: maps are compared by the fields of the left one, up to the first key that
the right one lacks, so that a string no reader survives may be met in one order only.
-/

namespace PgEddy

open Binary64 SortedMap

/-- The condition holds of every list and map of a value, and of everything inside them. -/
def Value.EveryJson {ch : Chrono} (p : Json → Prop) : Value ch → Prop
  | .json v => v.Every p
  | .path nodes rels => everyNode nodes ∧ everyNode rels
  | _ => True
where
  everyNode : List (Value ch) → Prop
    | [] => True
    | v :: vs => Value.EveryJson p v ∧ everyNode vs

/-- A string of a kind. -/
def Json.StringOf (T : String → Prop) : Json → Prop
  | .string s => T s
  | _ => True

/-- Reading the string does not panic. -/
def ReadableText (ch : Chrono) (s : String) : Prop := ∃ v, stringValue ch s = .ok v

namespace Comparison

variable {ch : Chrono} (cal : Calendar ch)

attribute [local simp] equalItems equalLoop equalFields equalTurns itemsEqual allItemsEqual compareValues allValuesEqual

namespace LawAux

/-! ## The negation -/

theorem equalLoop_neq (xs : List Json) : ∀ (hasNull : Bool) (ys : List Json),
    equalLoop cal .neq hasNull xs ys = (equalLoop cal .eq hasNull xs ys).map negated := by
  induction xs with
  | nil =>
    intro hasNull ys
    cases ys <;> cases hasNull <;> simp only [equalLoop] <;> rfl
  | cons x xs ih =>
    intro hasNull ys
    cases ys with
    | nil => cases hasNull <;> simp only [equalLoop] <;> rfl
    | cons y ys =>
      rw [equalLoop, equalLoop]
      cases equalItems cal x y with
      | error f => rfl
      | ok r =>
        cases r with
        | none => exact ih true ys
        | some b =>
          cases b with
          | true => exact ih hasNull ys
          | false => rfl

theorem equalFields_neq (fields : List (String × Json)) : ∀ (hasNull : Bool) (b : List (String × Json)),
    equalFields cal .neq hasNull fields b = (equalFields cal .eq hasNull fields b).map negated := by
  induction fields with
  | nil =>
    intro hasNull b
    cases hasNull <;> simp only [equalFields] <;> rfl
  | cons f fields ih =>
    intro hasNull b
    obtain ⟨k, x⟩ := f
    rw [equalFields, equalFields]
    cases b.lookup k with
    | none => rfl
    | some y =>
      dsimp only
      cases equalItems cal x y with
      | error f => rfl
      | ok r =>
        cases r with
        | none => exact ih true b
        | some same =>
          cases same with
          | true => exact ih hasNull b
          | false => rfl

theorem compareValues_neq (a b : Value ch) :
    compareValues cal a .neq b = (compareValues cal a .eq b).map negated := by
  unfold compareValues
  split
  · rename_i an ar bn br
    dsimp only
    split
    · rfl
    · cases allValuesEqual cal an bn with
      | error f => rfl
      | ok nodes =>
        cases nodes with
        | false => rfl
        | true =>
          cases allValuesEqual cal ar br with
          | error f => rfl
          | ok rels => cases rels <;> rfl
  · rename_i xs ys
    unfold compareLists
    dsimp only
    split
    · rfl
    · exact equalLoop_neq cal xs false ys
  · rename_i fields b
    unfold compareMaps
    dsimp only
    split
    · rfl
    · exact equalFields_neq cal fields false b
  · exact congrArg Except.ok (compareScalars_neq cal _ _)

/-! ## The order turned round -/

/-- The operators other than `=` and `<>` may be turned round. -/
theorem compareValues_flip (a : Value ch) {op : CmpOp} (heq : op ≠ .eq) (hneq : op ≠ .neq) (b : Value ch) :
    compareValues cal a op b = compareValues cal b op.flip a := by
  by_cases halike : madeAlike a b = true
  · rcases madeAlike_cases halike with ⟨an, ar, bn, br, rfl, rfl⟩ | ⟨xs, ys, rfl, rfl⟩ | ⟨fields, entries, rfl, rfl⟩
    · cases op with
      | eq => exact absurd rfl heq
      | neq => exact absurd rfl hneq
      | lt | gt | le | ge => simp only [CmpOp.flip, compareValues]
    · rw [compareValues, compareValues]
      cases op with
      | eq => exact absurd rfl heq
      | neq => exact absurd rfl hneq
      | lt | gt | le | ge => exact orderLoop_flip _ xs false ys
    · rw [compareValues, compareValues]
      cases op with
      | eq => exact absurd rfl heq
      | neq => exact absurd rfl hneq
      | lt | gt | le | ge => rfl
  · rw [Bool.not_eq_true] at halike
    rw [compareValues_of_not_madeAlike cal op halike,
      compareValues_of_not_madeAlike cal op.flip ((madeAlike_comm b a).trans halike), compareScalars_flip]

/-! ## Equality in both orders -/

/-- Both computations give the same result. -/
def Agree {α : Type} (p q : Exec α) : Prop := ∃ r, p = .ok r ∧ q = .ok r

theorem Agree.symm {α : Type} {p q : Exec α} (h : Agree p q) : Agree q p := h.imp fun _ hr => ⟨hr.2, hr.1⟩

/-- JSON that is read without a panic and whose objects are ordered maps. -/
def Good (ch : Chrono) : Json → Prop := Json.Every fun v => v.StringOf (ReadableText ch) ∧ v.KeysSorted

theorem jsonToValues_ok {items : List Json} (h : ∀ v ∈ items, ∃ w, jsonToValue ch v = .ok w) :
    ∃ ws, jsonToValues ch items = .ok ws := by
  induction items with
  | nil => exact ⟨[], by rw [jsonToValues]⟩
  | cons v items ih =>
    obtain ⟨w, hw⟩ := h v List.mem_cons_self
    obtain ⟨ws, hws⟩ := ih fun u hu => h u (List.mem_cons_of_mem _ hu)
    exact ⟨w :: ws, by rw [jsonToValues, hw, hws]; rfl⟩

theorem Good.value {v : Json} : Good ch v → ∃ w, jsonToValue ch v = .ok w := by
  induction v using Json.tree_induction with
  | null | bool | number | object => exact fun _ => ⟨_, by rw [jsonToValue]⟩
  | string s =>
    rintro ⟨hread, -⟩
    obtain ⟨w, hw⟩ := hread
    exact ⟨w, by rw [jsonToValue, hw]⟩
  | array items ih =>
    intro h
    obtain ⟨ws, hws⟩ := jsonToValues_ok fun v hv => ih v hv (((Json.every_array items).mp h).2 v hv)
    rw [jsonToValue]
    split
    · exact ⟨_, by rw [hws]; rfl⟩
    · exact ⟨_, rfl⟩

theorem Good.read {v : Json} (h : Good ch v) : ∃ w, readJson ch v = .ok w := by
  obtain ⟨w, hw⟩ := h.value
  exact ⟨w, by rw [readJson, hw]⟩

section

variable {xs : List Json}
  (hxs : ∀ x ∈ xs, ∀ y, Good ch y → Agree (equalItems cal x y) (equalItems cal y x))

include hxs

theorem equalLoop_agree : ∀ (hasNull : Bool) {ys : List Json}, (∀ y ∈ ys, Good ch y) →
    Agree (equalLoop cal .eq hasNull xs ys) (equalLoop cal .eq hasNull ys xs) := by
  induction xs with
  | nil =>
    intro hasNull ys _
    cases ys <;> exact ⟨_, by rw [equalLoop]; simp, by rw [equalLoop]; simp⟩
  | cons x xs ih =>
    intro hasNull ys hys
    have hrest : ∀ hasNull {ys}, _ := ih fun u hu => hxs u (List.mem_cons_of_mem _ hu)
    cases ys with
    | nil => exact ⟨_, by rw [equalLoop]; simp, by rw [equalLoop]; simp⟩
    | cons y ys =>
      obtain ⟨r, hr, hr'⟩ := hxs x List.mem_cons_self y (hys y List.mem_cons_self)
      have htail : ∀ v ∈ ys, Good ch v := fun v hv => hys v (List.mem_cons_of_mem _ hv)
      rw [equalLoop, equalLoop, hr, hr']
      cases r with
      | none => exact hrest true htail
      | some same =>
        cases same with
        | true => exact hrest hasNull htail
        | false => exact ⟨_, rfl, rfl⟩

theorem equalTurns_agree : ∀ (even : Bool) {ys : List Json}, (∀ y ∈ ys, Good ch y) →
    Agree (equalTurns cal even xs ys) (equalTurns cal even ys xs) := by
  induction xs with
  | nil =>
    intro even ys _
    cases even <;> cases ys <;> exact ⟨true, by simp [equalTurns]; rfl, by simp [equalTurns]; rfl⟩
  | cons x xs ih =>
    intro even ys hys
    have hrest : ∀ even {ys}, _ := ih fun u hu => hxs u (List.mem_cons_of_mem _ hu)
    cases ys with
    | nil => cases even <;> exact ⟨true, by simp [equalTurns]; rfl, by simp [equalTurns]; rfl⟩
    | cons y ys =>
      have htail : ∀ v ∈ ys, Good ch v := fun v hv => hys v (List.mem_cons_of_mem _ hv)
      cases even with
      | false =>
        rw [equalTurns, equalTurns]
        exact hrest true htail
      | true =>
        obtain ⟨r, hr, hr'⟩ := hxs x List.mem_cons_self y (hys y List.mem_cons_self)
        rw [equalTurns, equalTurns, hr, hr']
        change Agree (if r = some true then _ else _) (if r = some true then _ else _)
        split
        · exact hrest false htail
        · exact ⟨false, rfl, rfl⟩

end

/-! ### Maps -/

/-- What `=` gives for a field of one map: nothing where the other map lacks the key. -/
def cells (answer : Json → Json → Option Bool) (fields b : List (String × Json)) : List (Option (Option Bool)) :=
  fields.map fun f => (b.lookup f.1).map (answer f.2)

/-- The answer for maps of one size from the answers for the fields. -/
def ofCells (hasNull : Bool) (cells : List (Option (Option Bool))) : Option Bool :=
  if none ∈ cells ∨ some (some false) ∈ cells then some false
  else if hasNull = true ∨ some none ∈ cells then none
  else some true

theorem equalFields_eq {answer : Json → Json → Option Bool} {b : List (String × Json)} {fields : List (String × Json)}
    (h : ∀ f ∈ fields, ∀ y, b.lookup f.1 = some y → equalItems cal f.2 y = .ok (answer f.2 y)) :
    ∀ hasNull : Bool, equalFields cal .eq hasNull fields b = .ok (ofCells hasNull (cells answer fields b)) := by
  induction fields with
  | nil =>
    intro hasNull
    cases hasNull <;> rw [equalFields] <;> rfl
  | cons f fields ih =>
    intro hasNull
    obtain ⟨k, x⟩ := f
    have hrest := ih fun g hg => h g (List.mem_cons_of_mem _ hg)
    rw [equalFields]
    cases hlookup : b.lookup k with
    | none => simp [cells, ofCells, hlookup]
    | some y =>
      have hanswer := h (k, x) List.mem_cons_self y hlookup
      simp only [hanswer]
      have hcells : cells answer ((k, x) :: fields) b = some (answer x y) :: cells answer fields b := by
        simp [cells, hlookup]
      rw [hcells]
      cases answer x y with
      | none =>
        refine (hrest true).trans (congrArg Except.ok ?_)
        simp [ofCells]
      | some same =>
        cases same with
        | true =>
          refine (hrest hasNull).trans (congrArg Except.ok ?_)
          simp [ofCells]
        | false =>
          change Except.ok (some false) = _
          simp [ofCells]

theorem mem_cells_comm {answer : Json → Json → Option Bool} {a b : List (String × Json)} (ha : Sorted a)
    (hcomm : ∀ f ∈ a, ∀ g ∈ b, answer f.2 g.2 = answer g.2 f.2) {r : Option Bool} (h : some r ∈ cells answer a b) :
    some r ∈ cells answer b a := by
  obtain ⟨f, hf, hr⟩ := List.mem_map.mp h
  obtain ⟨y, hy, rfl⟩ := Option.map_eq_some_iff.mp hr
  have hmem := mem_of_lookup hy
  refine List.mem_map.mpr ⟨(f.1, y), hmem, ?_⟩
  rw [ha.lookup_of_mem hf, Option.map_some, hcomm f hf _ hmem]

/-- Maps of one size lack a key of each other, or neither does. -/
theorem none_mem_cells_comm {answer : Json → Json → Option Bool} {a b : List (String × Json)} (ha : Sorted a) (hb : Sorted b)
    (hlength : a.length = b.length) (h : none ∈ cells answer b a) : none ∈ cells answer a b := by
  by_contra hnot
  have hkeys : ∀ k ∈ a.map (·.1), k ∈ b.map (·.1) := by
    intro k hk
    obtain ⟨f, hf, rfl⟩ := List.mem_map.mp hk
    cases hlookup : b.lookup f.1 with
    | none => exact absurd (List.mem_map.mpr ⟨f, hf, by rw [hlookup]; rfl⟩) hnot
    | some y => exact List.mem_map.mpr ⟨_, mem_of_lookup hlookup, rfl⟩
  have hperm : (a.map (·.1)).Perm (b.map (·.1)) := by
    refine (List.subperm_of_subset ha.nodup_keys hkeys).perm_of_length_le ?_
    rw [List.length_map, List.length_map, hlength]
  obtain ⟨g, hg, hnone⟩ := List.mem_map.mp h
  have hback : g.1 ∈ a.map (·.1) := hperm.mem_iff.mpr (List.mem_map.mpr ⟨g, hg, rfl⟩)
  obtain ⟨f, hf, hfg⟩ := List.mem_map.mp hback
  have hfound := ha.lookup_of_mem hf
  rw [hfg] at hfound
  rw [hfound] at hnone
  cases hnone

theorem ofCells_comm {answer : Json → Json → Option Bool} {a b : List (String × Json)} (ha : Sorted a) (hb : Sorted b)
    (hlength : a.length = b.length) (hcomm : ∀ f ∈ a, ∀ g ∈ b, answer f.2 g.2 = answer g.2 f.2) (hasNull : Bool) :
    ofCells hasNull (cells answer a b) = ofCells hasNull (cells answer b a) := by
  have hcomm' : ∀ g ∈ b, ∀ f ∈ a, answer g.2 f.2 = answer f.2 g.2 := fun g hg f hf => (hcomm f hf g hg).symm
  have hnone : none ∈ cells answer a b ↔ none ∈ cells answer b a :=
    ⟨none_mem_cells_comm hb ha hlength.symm, none_mem_cells_comm ha hb hlength⟩
  have hsome : ∀ r, some r ∈ cells answer a b ↔ some r ∈ cells answer b a :=
    fun r => ⟨mem_cells_comm ha hcomm, mem_cells_comm hb hcomm'⟩
  simp only [ofCells, hnone, hsome]

/-- What `=` gives for two items, as far as it gives anything. -/
def answer (x y : Json) : Option Bool :=
  match equalItems cal x y with
  | .ok r => r
  | .error _ => none

theorem maps_agree {a b : List (String × Json)} (ha : Sorted a) (hb : Sorted b)
    (h : ∀ f ∈ a, ∀ g ∈ b, Agree (equalItems cal f.2 g.2) (equalItems cal g.2 f.2)) :
    Agree (if a.length ≠ b.length then .ok (some false) else equalFields cal .eq false a b)
      (if b.length ≠ a.length then .ok (some false) else equalFields cal .eq false b a) := by
  by_cases hlength : a.length = b.length
  · have hanswer : ∀ f ∈ a, ∀ g ∈ b, equalItems cal f.2 g.2 = .ok (answer cal f.2 g.2) ∧
        equalItems cal g.2 f.2 = .ok (answer cal g.2 f.2) ∧ answer cal f.2 g.2 = answer cal g.2 f.2 := by
      intro f hf g hg
      obtain ⟨r, hr, hr'⟩ := h f hf g hg
      simp only [answer, hr, hr', and_self]
    rw [if_neg (not_not.mpr hlength), if_neg (not_not.mpr hlength.symm),
      equalFields_eq cal fun f hf y hy => (hanswer f hf _ (mem_of_lookup hy)).1,
      equalFields_eq cal fun g hg x hx => (hanswer _ (mem_of_lookup hx) g hg).2.1]
    exact ⟨_, rfl, congrArg Except.ok (ofCells_comm ha hb hlength (fun f hf g hg => (hanswer f hf g hg).2.2) false).symm⟩
  · rw [if_pos hlength, if_pos (Ne.symm hlength)]
    exact ⟨_, rfl, rfl⟩

/-! ### Items and values -/

/-- Two values that are read and are not both made of items. -/
theorem read_agree {x y : Json} (hx : Good ch x) (hy : Good ch y)
    (h : equalItems cal x y = do
      let av ← readJson ch x
      let bv ← readJson ch y
      return compareScalars cal av .eq bv)
    (h' : equalItems cal y x = do
      let av ← readJson ch y
      let bv ← readJson ch x
      return compareScalars cal av .eq bv) : Agree (equalItems cal x y) (equalItems cal y x) := by
  obtain ⟨v, hv⟩ := hx.read
  obtain ⟨w, hw⟩ := hy.read
  rw [h, h', hv, hw]
  exact ⟨_, rfl, congrArg Except.ok (compareScalars_flip cal w .eq v)⟩

theorem equalItems_agree (x : Json) : ∀ y, Good ch x → Good ch y → Agree (equalItems cal x y) (equalItems cal y x) := by
  induction x using Json.tree_induction with
  | null | bool | number | string =>
    intro y hx hy
    cases y <;> exact read_agree cal hx hy (by simp only [equalItems]) (by simp only [equalItems])
  | array xs ih =>
    intro y hx hy
    cases y with
    | array ys =>
      obtain ⟨-, hxs⟩ := (Json.every_array xs).mp hx
      obtain ⟨-, hys⟩ := (Json.every_array ys).mp hy
      have hitems : ∀ x ∈ xs, ∀ y, Good ch y → Agree (equalItems cal x y) (equalItems cal y x) :=
        fun x hmem y hy => ih x hmem y (hxs x hmem) hy
      rw [equalItems, equalItems, Bool.and_comm (isPathArray ys), Bool.or_comm (isPathArray ys)]
      have hlength : ys.length ≠ xs.length ↔ xs.length ≠ ys.length := ne_comm
      simp only [hlength]
      split
      · split
        · exact ⟨_, rfl, rfl⟩
        · obtain ⟨nodes, hnodes, hnodes'⟩ := equalTurns_agree cal hitems true hys
          obtain ⟨rels, hrels, hrels'⟩ := equalTurns_agree cal hitems false hys
          rw [hnodes, hnodes', hrels, hrels']
          cases nodes <;> exact ⟨_, rfl, rfl⟩
      · split
        · exact ⟨_, rfl, rfl⟩
        · split
          · exact ⟨_, rfl, rfl⟩
          · exact equalLoop_agree cal hitems false hys
    | null | bool | number | string | object =>
      exact read_agree cal hx hy (by simp only [equalItems]) (by simp only [equalItems])
  | object a ih =>
    intro y hx hy
    cases y with
    | object b =>
      obtain ⟨⟨-, hsorted⟩, ha⟩ := (Json.every_object a).mp hx
      obtain ⟨⟨-, hsorted'⟩, hb⟩ := (Json.every_object b).mp hy
      have hfields : ∀ f ∈ a, ∀ g ∈ b, Agree (equalItems cal f.2 g.2) (equalItems cal g.2 f.2) :=
        fun f hf g hg => ih f hf g.2 (ha f hf) (hb g hg)
      rw [equalItems, equalItems]
      cases objectValue a with
      | json v =>
        cases objectValue b with
        | json w => exact maps_agree cal hsorted hsorted' hfields
        | node | edge | path | int | float | str | bool | null | temporal | duration =>
          exact ⟨_, rfl, congrArg Except.ok (compareScalars_flip cal _ .eq _)⟩
      | node | edge | path | int | float | str | bool | null | temporal | duration =>
        cases (objectValue b : Value ch) <;> exact ⟨_, rfl, congrArg Except.ok (compareScalars_flip cal _ .eq _)⟩
    | null | bool | number | string | array =>
      exact read_agree cal hx hy (by simp only [equalItems]) (by simp only [equalItems])

theorem allItemsEqual_agree {xs : List Json}
    (hxs : ∀ x ∈ xs, ∀ y, Good ch y → Agree (itemsEqual cal x y) (itemsEqual cal y x)) :
    ∀ {ys : List Json}, (∀ y ∈ ys, Good ch y) → Agree (allItemsEqual cal xs ys) (allItemsEqual cal ys xs) := by
  induction xs with
  | nil =>
    intro ys _
    cases ys <;> exact ⟨true, by simp [allItemsEqual]; rfl, by simp [allItemsEqual]; rfl⟩
  | cons x xs ih =>
    intro ys hys
    cases ys with
    | nil => exact ⟨true, by simp [allItemsEqual]; rfl, by simp [allItemsEqual]; rfl⟩
    | cons y ys =>
      obtain ⟨same, hsame, hsame'⟩ := hxs x List.mem_cons_self y (hys y List.mem_cons_self)
      rw [allItemsEqual, allItemsEqual, hsame, hsame']
      cases same with
      | true => exact ih (fun u hu => hxs u (List.mem_cons_of_mem _ hu)) fun v hv => hys v (List.mem_cons_of_mem _ hv)
      | false => exact ⟨false, rfl, rfl⟩

/-- An answer that is asked for equality. -/
theorem Agree.isTrue {p q : Exec (Option Bool)} (h : Agree p q) :
    Agree (do return decide ((← p) = some true) : Exec Bool) (do return decide ((← q) = some true)) := by
  obtain ⟨r, rfl, rfl⟩ := h
  exact ⟨_, rfl, rfl⟩

theorem itemsEqual_agree (x : Json) : ∀ y, Good ch x → Good ch y → Agree (itemsEqual cal x y) (itemsEqual cal y x) := by
  induction x using Json.tree_induction with
  | null | bool | number | string | object =>
    intro y hx hy
    have hitems := (equalItems_agree cal _ y hx hy).isTrue
    cases y <;> simpa only [itemsEqual] using hitems
  | array xs ih =>
    intro y hx hy
    have hitems := (equalItems_agree cal _ y hx hy).isTrue
    cases y with
    | array ys =>
      obtain ⟨-, hxs⟩ := (Json.every_array xs).mp hx
      obtain ⟨-, hys⟩ := (Json.every_array ys).mp hy
      rw [itemsEqual, itemsEqual, Bool.or_comm (isPathArray ys)]
      have hlength : ys.length ≠ xs.length ↔ xs.length ≠ ys.length := ne_comm
      simp only [hlength]
      split
      · exact hitems
      · split
        · exact ⟨false, rfl, rfl⟩
        · exact allItemsEqual_agree cal (fun x hmem y hy => ih x hmem y (hxs x hmem) hy) hys
    | null | bool | number | string | object => simpa only [itemsEqual] using hitems

theorem everyNode_iff {p : Json → Prop} (vs : List (Value ch)) :
    Value.EveryJson.everyNode p vs ↔ ∀ v ∈ vs, v.EveryJson p := by
  induction vs with
  | nil => simp [Value.EveryJson.everyNode]
  | cons v vs ih => rw [Value.EveryJson.everyNode, ih, List.forall_mem_cons]

/-- The parts of a value are read without a panic, and its maps are ordered. -/
def GoodValue (v : Value ch) : Prop := v.EveryJson fun w => w.StringOf (ReadableText ch) ∧ w.KeysSorted

theorem goodValue_json {v : Json} : GoodValue (.json v : Value ch) ↔ Good ch v := by rw [GoodValue, Value.EveryJson, Good]

theorem goodValue_path {nodes rels : List (Value ch)} :
    GoodValue (.path nodes rels) ↔ (∀ v ∈ nodes, GoodValue v) ∧ ∀ v ∈ rels, GoodValue v := by
  rw [GoodValue, Value.EveryJson, everyNode_iff, everyNode_iff]
  rfl

theorem valuesEqual_agree {a b : Value ch} (ha : GoodValue a) (hb : GoodValue b)
    (h : Agree (compareValues cal a .eq b) (compareValues cal b .eq a)) : Agree (valuesEqual cal a b) (valuesEqual cal b a) := by
  by_cases hlists : ∃ xs ys, a = .json (.array xs) ∧ b = .json (.array ys)
  · obtain ⟨xs, ys, rfl, rfl⟩ := hlists
    obtain ⟨-, hxs⟩ := (Json.every_array xs).mp (goodValue_json.mp ha)
    obtain ⟨-, hys⟩ := (Json.every_array ys).mp (goodValue_json.mp hb)
    rw [valuesEqual, valuesEqual]
    by_cases hlength : xs.length = ys.length
    · rw [if_pos hlength, if_pos hlength.symm]
      exact allItemsEqual_agree cal (fun x hmem y hy => itemsEqual_agree cal x y (hxs x hmem) hy) hys
    · rw [if_neg hlength, if_neg (Ne.symm hlength)]
      exact ⟨false, rfl, rfl⟩
  · rw [valuesEqual, valuesEqual]
    · exact h.isTrue
    · exact fun xs ys hb ha => hlists ⟨ys, xs, ha, hb⟩
    · exact fun xs ys ha hb => hlists ⟨xs, ys, ha, hb⟩

theorem allValuesEqual_agree {as : List (Value ch)}
    (has : ∀ a ∈ as, ∀ b, GoodValue b → Agree (valuesEqual cal a b) (valuesEqual cal b a)) :
    ∀ {bs : List (Value ch)}, (∀ b ∈ bs, GoodValue b) → Agree (allValuesEqual cal as bs) (allValuesEqual cal bs as) := by
  induction as with
  | nil =>
    intro bs _
    cases bs <;> exact ⟨true, by simp [allValuesEqual]; rfl, by simp [allValuesEqual]; rfl⟩
  | cons a as ih =>
    intro bs hbs
    cases bs with
    | nil => exact ⟨true, by simp [allValuesEqual]; rfl, by simp [allValuesEqual]; rfl⟩
    | cons b bs =>
      obtain ⟨same, hsame, hsame'⟩ := has a List.mem_cons_self b (hbs b List.mem_cons_self)
      rw [allValuesEqual_cons, allValuesEqual_cons, hsame, hsame']
      cases same with
      | true => exact ih (fun u hu => has u (List.mem_cons_of_mem _ hu)) fun v hv => hbs v (List.mem_cons_of_mem _ hv)
      | false => exact ⟨false, rfl, rfl⟩

/-- `=` gives the same answer in both orders on values whose parts can be read. -/
theorem compareValues_agree (a : Value ch) :
    ∀ b, GoodValue a → GoodValue b → Agree (compareValues cal a .eq b) (compareValues cal b .eq a) := by
  have hplain : ∀ a b : Value ch, madeAlike a b = false → Agree (compareValues cal a .eq b) (compareValues cal b .eq a) := by
    intro a b h
    rw [compareValues_of_not_madeAlike cal .eq h, compareValues_of_not_madeAlike cal .eq ((madeAlike_comm b a).trans h)]
    exact ⟨_, rfl, congrArg Except.ok (compareScalars_flip cal b .eq a)⟩
  induction a using Value.path_induction with
  | path an ar hnodes hrels =>
    intro b ha hb
    by_cases halike : madeAlike (.path an ar) b = true
    · rcases madeAlike_cases halike with ⟨_, _, bn, br, hpath, rfl⟩ | ⟨xs, ys, hlist, -⟩ | ⟨fields, entries, hmap, -⟩
      · cases hpath
        obtain ⟨han, har⟩ := goodValue_path.mp ha
        obtain ⟨hbn, hbr⟩ := goodValue_path.mp hb
        obtain ⟨nodes, hsame, hsame'⟩ := allValuesEqual_agree cal
          (fun a hmem b hb => valuesEqual_agree cal (han a hmem) hb (hnodes a hmem b (han a hmem) hb)) hbn
        obtain ⟨rels, hsame₂, hsame₂'⟩ := allValuesEqual_agree cal
          (fun a hmem b hb => valuesEqual_agree cal (har a hmem) hb (hrels a hmem b (har a hmem) hb)) hbr
        have hlength : bn.length ≠ an.length ∨ br.length ≠ ar.length ↔ an.length ≠ bn.length ∨ ar.length ≠ br.length :=
          or_congr ne_comm ne_comm
        simp only [compareValues, hlength]
        split
        · exact ⟨_, rfl, rfl⟩
        · rw [hsame, hsame', hsame₂, hsame₂']
          cases nodes <;> cases rels <;> exact ⟨_, rfl, rfl⟩
      · cases hlist
      · cases hmap
    · exact hplain _ b (Bool.not_eq_true _ ▸ halike)
  | json v =>
    intro b ha hb
    by_cases halike : madeAlike (.json v) b = true
    · rcases madeAlike_cases halike with ⟨_, _, _, _, hpath, -⟩ | ⟨xs, ys, hlist, rfl⟩ | ⟨fields, entries, hmap, rfl⟩
      · cases hpath
      · cases hlist
        obtain ⟨-, hxs⟩ := (Json.every_array xs).mp (goodValue_json.mp ha)
        obtain ⟨-, hys⟩ := (Json.every_array ys).mp (goodValue_json.mp hb)
        have hlength : ys.length ≠ xs.length ↔ xs.length ≠ ys.length := ne_comm
        simp only [compareValues, compareLists, hlength]
        split
        · exact ⟨_, rfl, rfl⟩
        · exact equalLoop_agree cal (fun x hmem y hy => equalItems_agree cal x y (hxs x hmem) hy) false hys
      · cases hmap
        obtain ⟨⟨-, hsorted⟩, hfields⟩ := (Json.every_object fields).mp (goodValue_json.mp ha)
        obtain ⟨⟨-, hsorted'⟩, hentries⟩ := (Json.every_object entries).mp (goodValue_json.mp hb)
        simp only [compareValues, compareMaps]
        exact maps_agree cal hsorted hsorted' fun f hf g hg => equalItems_agree cal f.2 g.2 (hfields f hf) (hentries g hg)
    · exact hplain _ b (Bool.not_eq_true _ ▸ halike)
  | node | edge | int | float | str | bool | null | temporal | duration =>
    intro b _ _
    exact hplain _ b rfl

theorem every_mono {p q : Json → Prop} (h : ∀ v, p v → q v) (v : Json) : v.Every p → v.Every q := by
  induction v using Json.tree_induction with
  | null | bool | number | string => exact h _
  | array items ih =>
    rw [Json.every_array, Json.every_array]
    exact And.imp (h _) fun hitems v hv => ih v hv (hitems v hv)
  | object fields ih =>
    rw [Json.every_object, Json.every_object]
    exact And.imp (h _) fun hfields f hf => ih f hf (hfields f hf)

theorem everyJson_mono {p q : Json → Prop} (h : ∀ v, p v → q v) (v : Value ch) : v.EveryJson p → v.EveryJson q := by
  induction v using Value.path_induction with
  | json v =>
    rw [Value.EveryJson, Value.EveryJson]
    exact every_mono h v
  | path nodes rels hnodes hrels =>
    rw [Value.EveryJson, Value.EveryJson]
    simp only [everyNode_iff]
    exact And.imp (fun hall v hv => hnodes v hv (hall v hv)) fun hall v hv => hrels v hv (hall v hv)
  | node | edge | int | float | str | bool | null | temporal | duration => exact fun _ => by rw [Value.EveryJson] <;> simp

/-- A map that lacks the first key of the other one. -/
def early : Json := .object [("a", .null), ("b", .null)]

/-- A map with a string under the key that comes first. -/
def late (s : String) : Json := .object [("b", .string s), ("c", .null)]

theorem early_sorted : early.KeysSorted := by
  change [("a", Json.null), ("b", Json.null)].Pairwise fun a b => a.1 < b.1
  refine List.pairwise_pair.mpr ?_
  change "a" < "b"
  decide

theorem late_sorted (s : String) : (late s).KeysSorted := by
  change [("b", Json.string s), ("c", Json.null)].Pairwise fun a b => a.1 < b.1
  refine List.pairwise_pair.mpr ?_
  change "b" < "c"
  decide

theorem early_eq_late (s : String) : compareValues cal (.json early) .eq (.json (late s)) = .ok (some false) := by
  simp [early, late, compareMaps, List.lookup_cons]

theorem late_eq_early {s : String} {f : Failure} (h : readJson ch (.string s) = .error f) :
    compareValues cal (.json (late s)) .eq (.json early) = .error f := by
  have hitem : equalItems cal (.string s) .null = .error f := by
    rw [equalItems, h]
    · rfl
    · exact nofun
    · exact nofun
  simp only [early, late, compareValues, compareMaps, equalFields, List.lookup_cons, List.length_cons, ne_eq, not_true_eq_false,
    if_false, String.reduceBEq, hitem]
  rfl

end LawAux

open LawAux

/-- Dates and times of the sample calendar taken apart. -/
def civilCalendar : Calendar civil where
  numDaysFromCe d := d.1 * 372 + d.2.1 * 31 + d.2.2
  hour t := t.1 / 3600
  minute t := t.1 % 3600 / 60
  second t := t.1 % 60
  nanosecond t := t.2

end Comparison

end PgEddy
