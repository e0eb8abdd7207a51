import PgEddy.Executor

/-!
# Bindings

What a row binds after the operations on rows.
-/

namespace PgEddy

namespace RowAux

variable {β : Type}

theorem get_insert (m : Std.ExtTreeMap String β) (k x : String) (v : β) :
    (m.insert k v)[x]? = if k = x then some v else m[x]? := by
  rw [Std.ExtTreeMap.getElem?_insert]
  simp only [Std.compare_eq_iff_eq]

theorem get_insert_self (m : Std.ExtTreeMap String β) (k : String) (v : β) : (m.insert k v)[k]? = some v := by
  rw [get_insert, if_pos rfl]

theorem get_insert_of_ne {m : Std.ExtTreeMap String β} {k x : String} {v : β} (h : k ≠ x) : (m.insert k v)[x]? = m[x]? := by
  rw [get_insert, if_neg h]

theorem get_insertIfNew (m : Std.ExtTreeMap String β) (k x : String) (v : β) :
    (m.insertIfNew k v)[x]? = if k = x ∧ m[k]? = none then some v else m[x]? := by
  rw [Std.ExtTreeMap.getElem?_insertIfNew]
  simp only [Std.compare_eq_iff_eq, ← Std.ExtTreeMap.isSome_getElem?_iff_mem]
  cases m[k]? <;> simp

theorem get_union (m n : Std.ExtTreeMap String β) (x : String) : (m ∪ n)[x]? = n[x]?.or m[x]? := Std.ExtTreeMap.getElem?_union

theorem get_map {γ : Type} (f : String → β → γ) (m : Std.ExtTreeMap String β) (x : String) :
    (m.map f)[x]? = m[x]?.map (f x) := by
  rw [Std.ExtTreeMap.getElem?_map]

end RowAux

open RowAux

variable {E : Engine}

theorem get_mergeParams (params : Params) (row : E.Row) (x : String) :
    (mergeParams E params row)[x]? = (row[x]?.map Value.toJson).or params[x]? := by
  unfold mergeParams
  rw [get_union, get_map]

theorem get_insertOpt (row : E.Row) (var : Option String) (v : E.Value) (x : String) :
    (insertOpt E row var v)[x]? = if var = some x then some v else row[x]? := by
  cases var with
  | none => simp [insertOpt]
  | some k => simp [insertOpt, get_insert]

theorem get_orInsert (row : E.Row) (var : String) (v : E.Value) (x : String) :
    (orInsert E row var v)[x]? = if var = x ∧ row[var]? = none then some v else row[x]? := get_insertIfNew row var x v

/-- The variable is bound to the relationship of an id. -/
def Binds (row : E.Row) (x : String) (edgeId : Int64) : Prop := ∃ v, row[x]? = some v ∧ v.edgeId = some edgeId

end PgEddy
