import Mathlib.Data.List.TakeWhile
import Mathlib.Data.String.Basic
import Mathlib.Tactic.Common
import Mathlib.Tactic.IntervalCases
import PgEddy.Lib.Text

/-!
# The order of numbers and of their digits

Numbers with the same count of digits are ordered as their texts are, and so are decimal fractions of any count of digits.
-/

namespace DigitOrder

open Text

/-! ## Lists in order -/

section Lists

variable {α : Type} [LinearOrder α]

theorem append_lt_append {u v : List α} (hlen : u.length = v.length) (h : u < v) (x y : List α) : u ++ x < v ++ y := by
  induction u generalizing v with
  | nil =>
    cases v with
    | nil => exact absurd h (lt_irrefl _)
    | cons b v => nomatch hlen
  | cons a u ih =>
    cases v with
    | nil => nomatch hlen
    | cons b v =>
      rw [List.cons_append, List.cons_append, List.cons_lt_cons_iff]
      rcases List.cons_lt_cons_iff.mp h with hab | ⟨hab, huv⟩
      · exact .inl hab
      · exact .inr ⟨hab, ih (Nat.succ.inj hlen) huv⟩

theorem append_left_lt (u : List α) {x y : List α} (h : x < y) : u ++ x < u ++ y := by
  induction u with
  | nil => exact h
  | cons a u ih => exact List.cons_lt_cons_iff.mpr (.inr ⟨rfl, ih⟩)

theorem lt_append (u : List α) {x : List α} (h : x ≠ []) : u < u ++ x := by
  cases x with
  | nil => exact absurd rfl h
  | cons a x =>
    have := append_left_lt u (List.nil_lt_cons a x)
    rwa [List.append_nil] at this

/-- The first difference of two lists: another item in one place, or the end of the one. -/
theorem lt_iff_firstDifference {u v : List α} : u < v ↔
    ∃ same, (∃ b y, u = same ∧ v = same ++ b :: y) ∨ ∃ a x b y, u = same ++ a :: x ∧ v = same ++ b :: y ∧ a < b := by
  constructor
  · intro h
    induction u generalizing v with
    | nil =>
      cases v with
      | nil => exact absurd h (lt_irrefl _)
      | cons b y => exact ⟨[], .inl ⟨b, y, rfl, rfl⟩⟩
    | cons a u ih =>
      cases v with
      | nil => exact absurd h (List.not_lt_nil _)
      | cons b v =>
        rcases List.cons_lt_cons_iff.mp h with hab | ⟨rfl, huv⟩
        · exact ⟨[], .inr ⟨a, u, b, v, rfl, rfl, hab⟩⟩
        · obtain ⟨same, ⟨b, y, rfl, rfl⟩ | ⟨a', x, b, y, rfl, rfl, hab⟩⟩ := ih huv
          · exact ⟨a :: u, .inl ⟨b, y, rfl, rfl⟩⟩
          · exact ⟨a :: same, .inr ⟨a', x, b, y, rfl, rfl, hab⟩⟩
  · rintro ⟨same, ⟨b, y, rfl, rfl⟩ | ⟨a, x, b, y, rfl, rfl, hab⟩⟩
    · exact lt_append u (List.cons_ne_nil b y)
    · exact append_left_lt same (List.cons_lt_cons_iff.mpr (.inl hab))

end Lists

/-! ## Digits -/

/-- The last digits of a number. -/
def lastDigits : Nat → Nat → List Char
  | 0, _ => []
  | w + 1, n => lastDigits w (n / 10) ++ [Nat.digitChar (n % 10)]

@[simp] theorem length_lastDigits (w n : Nat) : (lastDigits w n).length = w := by
  induction w generalizing n with
  | zero => rfl
  | succ w ih => rw [lastDigits, List.length_append, ih, List.length_singleton]

/-- The value of a digit. -/
def decimalValue (c : Char) : Nat := c.toNat - 48

theorem decimalValue_digitChar {d : Nat} (h : d < 10) : decimalValue (Nat.digitChar d) = d := by
  interval_cases d <;> rfl

theorem isDigit_digitChar {d : Nat} (h : d < 10) : (Nat.digitChar d).isDigit = true := by
  interval_cases d <;> rfl

theorem digitChar_lt {a b : Nat} (h : a < b) (hb : b < 10) : Nat.digitChar a < Nat.digitChar b := by
  interval_cases b <;> interval_cases a <;> decide

theorem isDigit_of_mem_lastDigits {w n : Nat} {c : Char} (h : c ∈ lastDigits w n) : c.isDigit = true := by
  induction w generalizing n with
  | zero => nomatch h
  | succ w ih =>
    rcases List.mem_append.mp h with h | h
    · exact ih h
    · rw [List.mem_singleton.mp h]
      exact isDigit_digitChar (Nat.mod_lt _ (by decide))

/-- Numbers of the same count of digits are ordered as these. -/
theorem lastDigits_lt {w a b : Nat} (h : a < b) (hb : b < 10 ^ w) : lastDigits w a < lastDigits w b := by
  induction w generalizing a b with
  | zero =>
    rw [pow_zero] at hb
    omega
  | succ w ih =>
    rw [pow_succ] at hb
    rw [lastDigits, lastDigits]
    rcases Nat.lt_or_ge (a / 10) (b / 10) with hlt | hge
    · exact append_lt_append (by simp) (ih hlt (by omega)) _ _
    · have hsame : a / 10 = b / 10 := by omega
      rw [hsame]
      refine append_left_lt _ (List.cons_lt_cons_iff.mpr (.inl (digitChar_lt ?_ (Nat.mod_lt _ (by decide)))))
      omega

theorem lastDigits_zero (w : Nat) : lastDigits w 0 = List.replicate w '0' := by
  induction w with
  | zero => rfl
  | succ w ih =>
    rw [lastDigits, Nat.zero_div, ih, List.replicate_succ']
    rfl

theorem lastDigits_eq {w n : Nat} (hw : 0 < w) (h : n < 10 ^ w) :
    (Nat.toDigits 10 n).length ≤ w ∧ lastDigits w n =
      List.replicate (w - (Nat.toDigits 10 n).length) '0' ++ Nat.toDigits 10 n := by
  induction w generalizing n with
  | zero => nomatch hw
  | succ w ih =>
    rw [Nat.toDigits_eq_if (by decide), lastDigits]
    by_cases hn : n < 10
    · rw [if_pos hn, Nat.div_eq_of_lt hn, lastDigits_zero, Nat.mod_eq_of_lt hn]
      exact ⟨by simp, by simp⟩
    · have hpow : n / 10 < 10 ^ w := by
        rw [pow_succ] at h
        omega
      have hw' : 0 < w := by
        rcases Nat.eq_zero_or_pos w with rfl | hw'
        · rw [pow_zero] at hpow
          omega
        · exact hw'
      obtain ⟨hlen, heq⟩ := ih hw' hpow
      rw [if_neg hn, heq]
      refine ⟨by simp; omega, ?_⟩
      rw [List.append_assoc, List.length_append, List.length_singleton, Nat.add_sub_add_right]

/-- A number that is filled up with zeros has its last digits. -/
theorem padNumber_eq {w n : Nat} (hw : 0 < w) (h : n < 10 ^ w) : padNumber w n = lastDigits w n :=
  (lastDigits_eq hw h).2.symm

theorem lt_pow_length_toDigits (n : Nat) : n < 10 ^ (Nat.toDigits 10 n).length :=
  (Nat.length_toDigits_le_iff (by decide) Nat.length_toDigits_pos).mp (le_refl _)

/-- A number that is filled up has its last digits, as many as there are. -/
theorem padNumber_eq_lastDigits (w n : Nat) :
    padNumber w n = lastDigits (padNumber w n).length n ∧ n < 10 ^ (padNumber w n).length := by
  have hlen : (padNumber w n).length = max w (Nat.toDigits 10 n).length := by
    rw [padNumber, List.length_append, List.length_replicate]
    omega
  have hpos : 0 < max w (Nat.toDigits 10 n).length := lt_of_lt_of_le Nat.length_toDigits_pos (le_max_right _ _)
  have hlt : n < 10 ^ max w (Nat.toDigits 10 n).length :=
    lt_of_lt_of_le (lt_pow_length_toDigits n) (Nat.pow_le_pow_right (by decide) (le_max_right _ _))
  refine ⟨?_, hlen ▸ hlt⟩
  rw [hlen, (lastDigits_eq hpos hlt).2, padNumber]
  congr 2
  omega

theorem isDigit_of_mem_padNumber {w n : Nat} {c : Char} (h : c ∈ padNumber w n) : c.isDigit = true := by
  rw [(padNumber_eq_lastDigits w n).1] at h
  exact isDigit_of_mem_lastDigits h

theorem padNumber_ne_nil (w n : Nat) : padNumber w n ≠ [] := by
  intro h
  have := (padNumber_eq_lastDigits w n).2
  have := @Nat.length_toDigits_pos 10 n
  have hzero : (padNumber w n).length = 0 := by rw [h]; rfl
  rw [padNumber, List.length_append] at hzero
  omega

/-- Numbers that are filled up to one width are ordered as their texts. -/
theorem padNumber_lt {w a b : Nat} (hw : 0 < w) (h : a < b) (hb : b < 10 ^ w) : padNumber w a < padNumber w b := by
  rw [padNumber_eq hw (h.trans hb), padNumber_eq hw hb]
  exact lastDigits_lt h hb

theorem length_padNumber {w n : Nat} (hw : 0 < w) (h : n < 10 ^ w) : (padNumber w n).length = w := by
  rw [padNumber_eq hw h, length_lastDigits]

/-- A text in front of which a number stands comes first if the number does. -/
theorem padNumber_append_lt {w a b : Nat} (hw : 0 < w) (h : a < b) (hb : b < 10 ^ w) (x y : List Char) :
    padNumber w a ++ x < padNumber w b ++ y :=
  append_lt_append (by rw [length_padNumber hw (h.trans hb), length_padNumber hw hb]) (padNumber_lt hw h hb) x y

/-- Digits before one mark are ordered as they are before it. -/
theorem digits_append_lt {m : Char} {u v : List Char} (hm : ∀ d : Char, d.isDigit = true → m < d) (hu : ∀ c ∈ u, c.isDigit = true)
    (hv : ∀ c ∈ v, c.isDigit = true) (h : u ++ [m] < v ++ [m]) (x y : List Char) : u ++ m :: x < v ++ m :: y := by
  induction u generalizing v with
  | nil =>
    cases v with
    | nil => exact absurd h (lt_irrefl _)
    | cons b v => exact List.cons_lt_cons_iff.mpr (.inl (hm b (hv b List.mem_cons_self)))
  | cons a u ih =>
    cases v with
    | nil =>
      rcases List.cons_lt_cons_iff.mp h with hlt | ⟨-, hlt⟩
      · exact absurd (hm a (hu a List.mem_cons_self)) (lt_asymm hlt)
      · exact absurd hlt (List.not_lt_nil _)
    | cons b v =>
      rcases List.cons_lt_cons_iff.mp h with hlt | ⟨rfl, hlt⟩
      · exact List.cons_lt_cons_iff.mpr (.inl hlt)
      · have hu' : ∀ c ∈ u, c.isDigit = true := fun c hc => hu c (List.mem_cons_of_mem a hc)
        have hv' : ∀ c ∈ v, c.isDigit = true := fun c hc => hv c (List.mem_cons_of_mem a hc)
        exact List.cons_lt_cons_iff.mpr (.inr ⟨rfl, ih hu' hv' hlt⟩)

/-! ## Decimal fractions -/

/-- The first digits of a decimal fraction as a number: digits that are not there are zeros. -/
def fractionValue : Nat → List Char → Nat
  | 0, _ => 0
  | _ + 1, [] => 0
  | k + 1, c :: cs => decimalValue c * 10 ^ k + fractionValue k cs

theorem decimalValue_lt {c : Char} (h : c.isDigit = true) : decimalValue c < 10 := by
  rw [Char.isDigit, Bool.and_eq_true, decide_eq_true_eq, decide_eq_true_eq] at h
  have hle : c.toNat ≤ 57 := h.2
  unfold decimalValue
  omega

theorem lt_of_decimalValue_lt {a b : Char} (h : decimalValue a < decimalValue b) : a < b := by
  unfold decimalValue at h
  have hlt : a.toNat < b.toNat := by omega
  exact hlt

theorem eq_of_decimalValue_eq {a b : Char} (ha : a.isDigit = true) (hb : b.isDigit = true)
    (h : decimalValue a = decimalValue b) : a = b := by
  rw [Char.isDigit, Bool.and_eq_true, decide_eq_true_eq, decide_eq_true_eq] at ha hb
  have hla : 48 ≤ a.toNat := ha.1
  have hlb : 48 ≤ b.toNat := hb.1
  unfold decimalValue at h
  exact Char.toNat_inj.mp (by omega)

theorem fractionValue_lt {k : Nat} {cs : List Char} (h : ∀ c ∈ cs, c.isDigit = true) : fractionValue k cs < 10 ^ k := by
  induction k generalizing cs with
  | zero => exact Nat.one_pos
  | succ k ih =>
    cases cs with
    | nil => exact Nat.pow_pos (by decide)
    | cons c cs =>
      have hc := decimalValue_lt (h c List.mem_cons_self)
      have hcs := ih fun d hd => h d (List.mem_cons_of_mem c hd)
      have hmul := Nat.mul_le_mul_right (10 ^ k) (Nat.le_of_lt_succ hc)
      rw [fractionValue, pow_succ]
      omega

/-- A smaller fraction has the smaller text. -/
theorem lt_of_fractionValue_lt {k : Nat} {xs ys : List Char} (hx : ∀ c ∈ xs, c.isDigit = true) (hy : ∀ c ∈ ys, c.isDigit = true)
    (h : fractionValue k xs < fractionValue k ys) : xs < ys := by
  induction k generalizing xs ys with
  | zero => exact absurd h (lt_irrefl 0)
  | succ k ih =>
    cases ys with
    | nil =>
      rw [fractionValue.eq_2] at h
      exact absurd h (Nat.not_lt_zero _)
    | cons b ys =>
      cases xs with
      | nil => exact List.nil_lt_cons b ys
      | cons a xs =>
        rw [fractionValue, fractionValue] at h
        have hxs : ∀ c ∈ xs, c.isDigit = true := fun c hc => hx c (List.mem_cons_of_mem a hc)
        have hys : ∀ c ∈ ys, c.isDigit = true := fun c hc => hy c (List.mem_cons_of_mem b hc)
        rcases Nat.lt_trichotomy (decimalValue a) (decimalValue b) with hab | hab | hab
        · exact List.cons_lt_cons_iff.mpr (.inl (lt_of_decimalValue_lt hab))
        · rw [hab] at h
          have heq := eq_of_decimalValue_eq (hx a List.mem_cons_self) (hy b List.mem_cons_self) hab
          exact List.cons_lt_cons_iff.mpr (.inr ⟨heq, ih hxs hys (Nat.lt_of_add_lt_add_left h)⟩)
        · have hmul := Nat.mul_le_mul_right (10 ^ k) hab
          have hlt := @fractionValue_lt k ys hys
          rw [Nat.succ_mul] at hmul
          omega

theorem fractionValue_zeros (k j : Nat) : fractionValue k (List.replicate j '0') = 0 := by
  induction k generalizing j with
  | zero => rfl
  | succ k ih =>
    cases j with
    | zero => rfl
    | succ j =>
      rw [List.replicate_succ, fractionValue, ih]
      exact Nat.zero_mul _

/-- Zeros at the end do not count. -/
theorem fractionValue_append_zeros (k j : Nat) (xs : List Char) :
    fractionValue k (xs ++ List.replicate j '0') = fractionValue k xs := by
  induction k generalizing xs with
  | zero => rfl
  | succ k ih =>
    cases xs with
    | nil => exact fractionValue_zeros (k + 1) j
    | cons c xs => rw [List.cons_append, fractionValue, fractionValue, ih]

theorem fractionValue_concat {k : Nat} {xs : List Char} (hlen : xs.length = k) (c : Char) :
    fractionValue (k + 1) (xs ++ [c]) = fractionValue k xs * 10 + decimalValue c := by
  induction k generalizing xs with
  | zero =>
    rw [List.length_eq_zero_iff.mp hlen]
    simp [fractionValue]
  | succ k ih =>
    cases xs with
    | nil => nomatch hlen
    | cons a xs =>
      rw [List.cons_append, fractionValue, ih (Nat.succ.inj hlen), fractionValue, pow_succ, Nat.add_mul, Nat.mul_assoc,
        Nat.add_assoc]

theorem fractionValue_lastDigits {k n : Nat} (h : n < 10 ^ k) : fractionValue k (lastDigits k n) = n := by
  induction k generalizing n with
  | zero =>
    rw [pow_zero] at h
    rw [fractionValue]
    omega
  | succ k ih =>
    rw [pow_succ] at h
    rw [lastDigits, fractionValue_concat (length_lastDigits k _), ih (by omega),
      decimalValue_digitChar (Nat.mod_lt _ (by decide))]
    omega

/-- A number can be read off its digits. -/
theorem padNumber_injective {w w' n n' : Nat} (h : padNumber w n = padNumber w' n') : n = n' := by
  obtain ⟨heq, hlt⟩ := padNumber_eq_lastDigits w n
  obtain ⟨heq', hlt'⟩ := padNumber_eq_lastDigits w' n'
  rw [← fractionValue_lastDigits hlt, ← fractionValue_lastDigits hlt', ← heq, ← heq', h]

/-- What is cut off the end is of the one character. -/
theorem trimEndMatches_append (c : Char) (cs : List Char) : ∃ j, trimEndMatches c cs ++ List.replicate j c = cs := by
  refine ⟨(cs.reverse.takeWhile (· = c)).length, ?_⟩
  have hall : ∀ x ∈ cs.reverse.takeWhile (· = c), x = c := by
    intro x hx
    have := List.mem_takeWhile_imp hx
    exact of_decide_eq_true this
  have hreplicate := List.eq_replicate_of_mem hall
  rw [trimEndMatches, ← List.reverse_replicate, ← hreplicate, ← List.reverse_append, List.takeWhile_append_dropWhile,
    List.reverse_reverse]

theorem fractionValue_trimEndMatches (k : Nat) (cs : List Char) :
    fractionValue k (trimEndMatches '0' cs) = fractionValue k cs := by
  obtain ⟨j, hj⟩ := trimEndMatches_append '0' cs
  rw [← fractionValue_append_zeros k j, hj]

theorem isDigit_of_mem_trimEndMatches {c x : Char} {cs : List Char} (h : x ∈ trimEndMatches c cs)
    (hcs : ∀ y ∈ cs, y.isDigit = true) :
    x.isDigit = true := by
  obtain ⟨j, hj⟩ := trimEndMatches_append c cs
  exact hcs x (hj ▸ List.mem_append_left _ h)

end DigitOrder
