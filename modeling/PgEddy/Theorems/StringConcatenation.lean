import PgEddy.Arithmetic
import PgEddy.Theorems.ValueTransport

/-!
# Concatenation of strings

`s + t` on two strings is the one followed by the other just where neither of them is read as a duration or as a temporal
value: the operands of an operator are read first, and the text of a duration is not added to a string.
-/

namespace PgEddy

variable {ch : Chrono} (build : Build) (M : MathLib ch)

/-- Neither reader takes the string for the text of a duration or of a temporal value, and neither panics. -/
def ReadsAsText (ch : Chrono) (s : String) : Prop :=
  (tryParseDurationIso s).run = .ok none ∧ (tryParseTemporalIso ch s).run = .ok none

namespace ConcatenationAux

theorem coerceTemporalStr_of_readsAsText {s : String} (h : ReadsAsText ch s) :
    coerceTemporalStr (.str s : Value ch) = .ok (.str s) := by
  simp only [coerceTemporalStr, readText, h.1, h.2]
  rfl

/-- A string that stays one is read as text, and stays as it is. -/
theorem readsAsText_of_coerceTemporalStr {s t : String} (h : coerceTemporalStr (.str s : Value ch) = .ok (.str t)) :
    ReadsAsText ch s := by
  simp only [coerceTemporalStr, readText] at h
  cases hduration : (tryParseDurationIso s).run with
  | error p =>
    rw [hduration] at h
    cases h
  | ok dur =>
    rw [hduration] at h
    cases dur with
    | some dur => cases h
    | none =>
      cases htemporal : (tryParseTemporalIso ch s).run with
      | error p =>
        rw [htemporal] at h
        cases h
      | ok tv =>
        rw [htemporal] at h
        cases tv with
        | some tv => cases h
        | none => exact ⟨hduration, htemporal⟩

/-- What is computed and then wrapped as another kind of value is no string. -/
theorem not_str_of_map {α : Type} {x : Exec α} {wrap : α → Value ch} {u : String} (hwrap : ∀ a, wrap a ≠ .str u)
    (h : (do return wrap (← x)) = (.ok (.str u) : Exec (Value ch))) : False := by
  cases x with
  | error f => cases h
  | ok a => exact hwrap a (Except.ok.inj h)

theorem intArith_ne_str (a b : Int64) (u : String) : intArith build M a .add b ≠ .ok (.str u) := fun h => not_str_of_map nofun h

/-- Only two strings add up to a string, and to the one followed by the other. -/
theorem strings_of_arithCoerced {left right : Value ch} {u : String} (h : arithCoerced build M left .add right = .ok (.str u)) :
    ∃ a b, left = .str a ∧ right = .str b ∧ u = a ++ b := by
  generalize hop : ArithOp.add = op at h
  unfold arithCoerced at h
  split at h
  case h_1 =>
    subst hop
    exact absurd h (intArith_ne_str build M _ _ u)
  case h_2 | h_3 | h_4 =>
    subst hop
    cases h
  case h_5 a b =>
    cases h
    exact ⟨a, b, rfl, rfl, rfl⟩
  case h_9 | h_11 | h_19 => exact (not_str_of_map nofun h).elim
  all_goals cases hop
  all_goals cases h

end ConcatenationAux

open ConcatenationAux

/-- Two strings are put one after the other if and only if both are read as text. -/
theorem string_concatenation_holds (s t : String) :
    evalArith build M (.str s) .add (.str t) = .ok (.str (s ++ t)) ↔ ReadsAsText ch s ∧ ReadsAsText ch t := by
  constructor
  · intro h
    rw [evalArith] at h
    cases hs : coerceTemporalStr (.str s : Value ch) with
    | error f =>
      rw [hs] at h
      cases h
    | ok left =>
      rw [hs] at h
      cases ht : coerceTemporalStr (.str t : Value ch) with
      | error f =>
        rw [ht] at h
        cases h
      | ok right =>
        rw [ht] at h
        obtain ⟨a, b, rfl, rfl, -⟩ := strings_of_arithCoerced build M h
        exact ⟨readsAsText_of_coerceTemporalStr hs, readsAsText_of_coerceTemporalStr ht⟩
  · rintro ⟨hs, ht⟩
    rw [evalArith, coerceTemporalStr_of_readsAsText hs, coerceTemporalStr_of_readsAsText ht]
    rfl

/-- `'P' + 'ark'` is null: the single letter is a duration of zero. So is `'12:30' + ' h'`. -/
theorem letter_is_duration :
    evalArith .release (.bare civil) (.str "P") .add (.str "ark") = .ok .null ∧
      evalArith .release (.bare civil) (.str "12:30") .add (.str " h") = .ok .null ∧
      ¬∀ s t : String, evalArith .release (.bare civil) (.str s) .add (.str t) = .ok (.str (s ++ t)) := by
  have hletter : evalArith .release (.bare civil) (.str "P") .add (.str "ark") = .ok .null := rfl
  refine ⟨hletter, rfl, fun h => ?_⟩
  have hstr := (h "P" "ark").symm.trans hletter
  cases hstr

end PgEddy
