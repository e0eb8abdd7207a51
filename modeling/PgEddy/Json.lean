import Mathlib.Data.String.Basic
import PgEddy.Lib.Binary64
import PgEddy.Lib.SortedMap

/-!
# JSON values

The values of the JSON library the program keeps properties in. A number is an unsigned integer, a negative integer or a
finite float, and these are different values even where they are the same quantity. An object is an ordered map: a list of
fields whose keys go up (`Json.Ordered`).
-/

namespace PgEddy

open Binary64 SortedMap

/-- A JSON number. -/
inductive JsonNumber where
  | posInt (n : UInt64)
  | negInt (i : Int64) (neg : i < 0)
  | float (f : F64) (finite : f.isFinite = true)
  deriving DecidableEq

namespace JsonNumber

/-- The number of a signed integer: `Number::from`. -/
def ofI64 (i : Int64) : JsonNumber := if h : i < 0 then .negInt i h else .posInt i.toUInt64

/-- The number of a float, if it is finite: `Number::from_f64`. -/
def ofF64? (f : F64) : Option JsonNumber := if h : f.isFinite then some (.float f h) else none

/-- The number as a signed integer, if it is one: `as_i64`. -/
def asI64 : JsonNumber → Option Int64
  | posInt n => if n.toNat < 2 ^ 63 then some n.toInt64 else none
  | negInt i _ => some i
  | float _ _ => none

/-- The number as a float: `as_f64`. -/
def asF64 : JsonNumber → Option F64
  | posInt n => some (.ofNat n.toNat)
  | negInt i _ => some (.ofInt i.toInt)
  | float f _ => some f

/-- An unsigned integer is a signed one, or the number is not an unsigned integer. -/
def Signed : JsonNumber → Prop
  | posInt n => n.toNat < 2 ^ 63
  | _ => True

instance (n : JsonNumber) : Decidable n.Signed := by
  cases n <;> unfold Signed <;> infer_instance

theorem toInt_toInt64 {n : UInt64} (h : n.toNat < 2 ^ 63) : n.toInt64.toInt = n.toNat := by
  change n.toBitVec.toInt = _
  have hbits : n.toBitVec.toNat = n.toNat := rfl
  rw [BitVec.toInt_eq_toNat_of_lt (by omega), hbits]

/-- A signed integer that is not negative reads back as the unsigned one it was. -/
theorem ofI64_toInt64 {n : UInt64} (h : n.toNat < 2 ^ 63) : ofI64 n.toInt64 = .posInt n := by
  have hnonneg : ¬n.toInt64 < 0 := by
    have hzero : (0 : Int64).toInt = 0 := rfl
    rw [Int64.lt_iff_toInt_lt, toInt_toInt64 h]
    omega
  unfold ofI64
  rw [dif_neg hnonneg, UInt64.toUInt64_toInt64]

theorem toNat_toUInt64 {i : Int64} (h : ¬i < 0) : i.toUInt64.toNat < 2 ^ 63 := by
  have hzero : (0 : Int64).toInt = 0 := rfl
  rw [Int64.lt_iff_toInt_lt, hzero] at h
  have hint : i.toInt = i.toUInt64.toBitVec.toInt := rfl
  have hnat : i.toUInt64.toBitVec.toNat = i.toUInt64.toNat := rfl
  rw [hint, BitVec.toInt_eq_toNat_cond, hnat] at h
  split at h <;> omega

theorem signed_ofI64 (i : Int64) : (ofI64 i).Signed := by
  unfold ofI64
  split
  · trivial
  · rename_i h
    exact toNat_toUInt64 h

end JsonNumber

/-- A JSON value. -/
inductive Json where
  | null
  | bool (b : Bool)
  | number (n : JsonNumber)
  | string (s : String)
  | array (items : List Json)
  | object (fields : List (String × Json))

namespace Json

/-- Induction over a value, with the induction hypothesis at every item of an array and every field of an object. -/
@[elab_as_elim]
theorem tree_induction {motive : Json → Prop} (null : motive .null) (bool : ∀ b, motive (.bool b))
    (number : ∀ n, motive (.number n)) (string : ∀ s, motive (.string s))
    (array : ∀ items, (∀ v ∈ items, motive v) → motive (.array items))
    (object : ∀ fields, (∀ f ∈ fields, motive f.2) → motive (.object fields)) (v : Json) : motive v :=
  @Json.rec motive (fun items => ∀ v ∈ items, motive v) (fun fields => ∀ f ∈ fields, motive f.2) (fun f => motive f.2)
    null bool number string array object
    (fun _ h => absurd h List.not_mem_nil)
    (fun _ _ hv hvs => List.forall_mem_cons.mpr ⟨hv, hvs⟩)
    (fun _ h => absurd h List.not_mem_nil)
    (fun _ _ hf hfs => List.forall_mem_cons.mpr ⟨hf, hfs⟩)
    (fun _ _ hv => hv) v

mutual

/-- Two values are the same, structure by structure. -/
def same : Json → Json → Bool
  | .null, .null => true
  | .bool a, .bool b => a == b
  | .number a, .number b => a == b
  | .string a, .string b => a == b
  | .array a, .array b => sameItems a b
  | .object a, .object b => sameFields a b
  | _, _ => false

def sameItems : List Json → List Json → Bool
  | [], [] => true
  | v :: a, w :: b => same v w && sameItems a b
  | _, _ => false

def sameFields : List (String × Json) → List (String × Json) → Bool
  | [], [] => true
  | (k, v) :: a, (l, w) :: b => k == l && same v w && sameFields a b
  | _, _ => false

end

theorem sameItems_iff (a b : List Json) (h : ∀ v ∈ a, ∀ w, v.same w = true ↔ v = w) : sameItems a b = true ↔ a = b := by
  induction a generalizing b with
  | nil => cases b <;> simp [sameItems]
  | cons v a ih =>
    cases b with
    | nil => simp [sameItems]
    | cons w b =>
      rw [sameItems, Bool.and_eq_true, h v List.mem_cons_self w, ih b fun u hu => h u (List.mem_cons_of_mem _ hu),
        List.cons.injEq]

theorem sameFields_iff (a b : List (String × Json)) (h : ∀ f ∈ a, ∀ w, f.2.same w = true ↔ f.2 = w) :
    sameFields a b = true ↔ a = b := by
  induction a generalizing b with
  | nil => cases b <;> simp [sameFields]
  | cons f a ih =>
    obtain ⟨k, v⟩ := f
    cases b with
    | nil => simp [sameFields]
    | cons g b =>
      obtain ⟨l, w⟩ := g
      rw [sameFields, Bool.and_eq_true, Bool.and_eq_true, h (k, v) List.mem_cons_self w,
        ih b fun u hu => h u (List.mem_cons_of_mem _ hu), List.cons.injEq, Prod.mk.injEq, beq_iff_eq]

theorem same_iff (v : Json) : ∀ w, v.same w = true ↔ v = w := by
  induction v using Json.tree_induction with
  | null => intro w; cases w <;> simp [same]
  | bool b => intro w; cases w <;> simp [same]
  | number n => intro w; cases w <;> simp [same]
  | string s => intro w; cases w <;> simp [same]
  | array items ih =>
    intro w
    cases w <;> simp only [same, reduceCtorEq, Bool.false_eq_true, array.injEq]
    exact sameItems_iff _ _ ih
  | object fields ih =>
    intro w
    cases w <;> simp only [same, reduceCtorEq, Bool.false_eq_true, object.injEq]
    exact sameFields_iff _ _ ih

instance : DecidableEq Json := fun v w => decidable_of_iff (v.same w = true) (same_iff v w)

mutual

/-- A condition holds of a value and of every value inside it. -/
def Every (p : Json → Prop) : Json → Prop
  | .null => p .null
  | .bool b => p (.bool b)
  | .number n => p (.number n)
  | .string s => p (.string s)
  | .array items => p (.array items) ∧ EveryItem p items
  | .object fields => p (.object fields) ∧ EveryField p fields

def EveryItem (p : Json → Prop) : List Json → Prop
  | [] => True
  | v :: items => Every p v ∧ EveryItem p items

def EveryField (p : Json → Prop) : List (String × Json) → Prop
  | [] => True
  | (_, v) :: fields => Every p v ∧ EveryField p fields

end

mutual

def decidableEvery (p : Json → Prop) [DecidablePred p] : (v : Json) → Decidable (Every p v)
  | .null => inferInstanceAs (Decidable (p .null))
  | .bool b => inferInstanceAs (Decidable (p (.bool b)))
  | .number n => inferInstanceAs (Decidable (p (.number n)))
  | .string s => inferInstanceAs (Decidable (p (.string s)))
  | .array items => @instDecidableAnd _ _ (inferInstanceAs (Decidable (p _))) (decidableEveryItem p items)
  | .object fields => @instDecidableAnd _ _ (inferInstanceAs (Decidable (p _))) (decidableEveryField p fields)

def decidableEveryItem (p : Json → Prop) [DecidablePred p] : (items : List Json) → Decidable (EveryItem p items)
  | [] => inferInstanceAs (Decidable True)
  | v :: items => @instDecidableAnd _ _ (decidableEvery p v) (decidableEveryItem p items)

def decidableEveryField (p : Json → Prop) [DecidablePred p] :
    (fields : List (String × Json)) → Decidable (EveryField p fields)
  | [] => inferInstanceAs (Decidable True)
  | (_, v) :: fields => @instDecidableAnd _ _ (decidableEvery p v) (decidableEveryField p fields)

end

instance (p : Json → Prop) [DecidablePred p] (v : Json) : Decidable (v.Every p) := decidableEvery p v

variable {p q : Json → Prop}

theorem everyItem_iff (items : List Json) : EveryItem p items ↔ ∀ v ∈ items, v.Every p := by
  induction items with
  | nil => simp [EveryItem]
  | cons v items ih => rw [EveryItem, ih, List.forall_mem_cons]

theorem everyField_iff (fields : List (String × Json)) : EveryField p fields ↔ ∀ f ∈ fields, f.2.Every p := by
  induction fields with
  | nil => simp [EveryField]
  | cons f fields ih => rw [EveryField, ih, List.forall_mem_cons]

theorem every_array (items : List Json) : (array items).Every p ↔ p (array items) ∧ ∀ v ∈ items, v.Every p := by
  rw [Every, everyItem_iff]

theorem every_object (fields : List (String × Json)) :
    (object fields).Every p ↔ p (object fields) ∧ ∀ f ∈ fields, f.2.Every p := by
  rw [Every, everyField_iff]

/-- Two conditions hold everywhere in a value when both do. -/
theorem every_and (v : Json) : v.Every (fun w => p w ∧ q w) ↔ v.Every p ∧ v.Every q := by
  induction v using Json.tree_induction with
  | null => exact Iff.rfl
  | bool b => exact Iff.rfl
  | number n => exact Iff.rfl
  | string s => exact Iff.rfl
  | array items ih =>
    rw [every_array, every_array, every_array]
    constructor
    · rintro ⟨⟨hp, hq⟩, h⟩
      exact ⟨⟨hp, fun v hv => ((ih v hv).mp (h v hv)).1⟩, hq, fun v hv => ((ih v hv).mp (h v hv)).2⟩
    · rintro ⟨⟨hp, hps⟩, hq, hqs⟩
      exact ⟨⟨hp, hq⟩, fun v hv => (ih v hv).mpr ⟨hps v hv, hqs v hv⟩⟩
  | object fields ih =>
    rw [every_object, every_object, every_object]
    constructor
    · rintro ⟨⟨hp, hq⟩, h⟩
      exact ⟨⟨hp, fun f hf => ((ih f hf).mp (h f hf)).1⟩, hq, fun f hf => ((ih f hf).mp (h f hf)).2⟩
    · rintro ⟨⟨hp, hps⟩, hq, hqs⟩
      exact ⟨⟨hp, hq⟩, fun f hf => (ih f hf).mpr ⟨hps f hf, hqs f hf⟩⟩

/-- The fields of an object are in the order of their keys. -/
def KeysSorted : Json → Prop
  | .object fields => Sorted fields
  | _ => True

instance : DecidablePred KeysSorted
  | .object fields => inferInstanceAs (Decidable (Sorted fields))
  | .null | .bool _ | .number _ | .string _ | .array _ => inferInstanceAs (Decidable True)

/-- Every object of the value is an ordered map. -/
def Ordered : Json → Prop := Every KeysSorted

instance (v : Json) : Decidable v.Ordered := decidableEvery KeysSorted v

end Json

/-- A JSON map. -/
structure JsonMap where
  fields : List (String × Json)
  ordered : (Json.object fields).Ordered

end PgEddy
