import Mathlib.Data.List.TakeWhile
import PgEddy.HopBounds
import PgEddy.Lemmas.LexerRuns

/-!
# The tokens of integer literals

The token of an integer literal carries the number that is written where it starts.
-/

namespace PgEddy

open Text

variable {input : List Char}

/-- The token stands for the number. -/
def Token.Carries (token : Token) (n : Nat) : Prop :=
  match token with
  | .intLit v => v.toInt = n
  | .intLitBig => n = 2 ^ 63
  | _ => True

namespace IntTokensAux

open LexerAux

/-! ## Digits -/

theorem toDigit_eq {radix d : Nat} {c : Char} (h : toDigit radix c = some d) : d = digitValue c := by
  obtain ⟨hd, -⟩ := Option.filter_eq_some_iff.mp h
  unfold digitValue
  split_ifs at hd ⊢ <;> simp only [Option.some.injEq, reduceCtorEq] at hd <;> omega

theorem foldl_none (radix : Nat) (ds : List Char) :
    ds.foldl (fun (n : Option Nat) c => n.bind fun n => (toDigit radix c).map fun d => n * radix + d) none = none := by
  induction ds with
  | nil => rfl
  | cons c ds ih => exact ih

theorem foldl_digits {radix v : Nat} : ∀ {ds : List Char} {n : Nat},
    ds.foldl (fun (n : Option Nat) c => n.bind fun n => (toDigit radix c).map fun d => n * radix + d) (some n) = some v →
      ds.foldl (fun n c => n * radix + digitValue c) n = v
  | [], n, h => Option.some.inj h
  | c :: ds, n, h => by
    rw [List.foldl_cons] at h ⊢
    cases hd : toDigit radix c with
    | none =>
      rw [Option.bind_some, hd, Option.map_none, foldl_none] at h
      nomatch h
    | some d =>
      rw [Option.bind_some, hd, Option.map_some] at h
      rw [← toDigit_eq hd]
      exact foldl_digits h

/-- Digits of a base are read as the number they stand for. -/
theorem fromStrRadix_eq {radix v : Nat} {ds : List Char} (hplus : ds.head? ≠ some '+') (h : fromStrRadix 64 radix ds = some v) :
    digitsValue radix ds = v := by
  unfold fromStrRadix at h
  dsimp only at h
  split at h
  · exact absurd rfl hplus
  · split at h
    · cases h
    · exact foldl_digits (Option.filter_eq_some_iff.mp h).1

theorem toInt_ofNat {v : Nat} (h : v < 2 ^ 63) : (Int64.ofNat v).toInt = v := Int64.toInt_ofNat_of_lt h

/-- The token of a hexadecimal or octal literal. -/
theorem radixToken_carries {radix : Nat} {ds : List Char} {incomplete : String} {token : Token} (hplus : ds.head? ≠ some '+')
    (h : radixToken radix ds incomplete = .ok token) : token.Carries (digitsValue radix ds) := by
  unfold radixToken at h
  split at h
  · cases h
  · split at h
    · cases h
    · next v hv =>
      rw [fromStrRadix_eq hplus hv]
      split_ifs at h with hbig hmin
      · cases h
        exact hmin
      · cases h
        exact toInt_ofNat (by omega)

/-! ## Decimal literals -/

theorem isDigit_lead {c : Char} : isAsciiDigit (lead c) = true ↔ c.isDigit = true := by
  by_cases hc : isAscii c = true
  · have hlead := toNat_lead_of_isAscii hc
    simp only [isAsciiDigit, Char.isDigit, Bool.and_eq_true, decide_eq_true_eq, UInt8.le_iff_toNat_le, ge_iff_le,
      UInt32.le_iff_toNat_le, hlead]
    rfl
  · have hc' : isAscii c = false := by simpa using hc
    have hn : 128 ≤ c.toNat := by simpa [isAscii] using hc'
    rw [isAsciiDigit_high _ (le_lead hc')]
    simp only [Bool.false_eq_true, Char.isDigit, Bool.and_eq_true, decide_eq_true_eq, ge_iff_le, UInt32.le_iff_toNat_le,
      false_iff, not_and, not_le]
    intro _
    exact Nat.lt_of_lt_of_le (by decide) hn

/-- A literal without a point or an exponent is the digits that the text starts with. -/
theorem scanNumber_digits (cs numStr : List Char) (hasDot hasE : Bool) (h : (scanNumber cs numStr hasDot hasE).2.2 = false) :
    hasDot = false ∧ (scanNumber cs numStr hasDot hasE).2.1 = numStr ++ takeBytes isAsciiDigit cs := by
  induction cs, numStr, hasDot, hasE using scanNumber.induct with
  | case1 numStr hasDot hasE => exact ⟨h, by simp [scanNumber, takeBytes]⟩
  | case2 c cs numStr hasDot hasE hdigit ih =>
    rw [scanNumber.eq_def] at h ⊢
    simp only [if_pos hdigit] at h ⊢
    obtain ⟨hdot, hstr⟩ := ih h
    refine ⟨hdot, hstr.trans ?_⟩
    simp [takeBytes, hdigit]
  | case3 c cs numStr hasDot hasE hdigit hdot hnext =>
    obtain ⟨rfl, rfl, rfl⟩ := hdot
    rw [scanNumber.eq_def]
    simp [takeBytes, hdigit, hnext]
  | case4 c cs numStr hasDot hasE hdigit hdot hnext ih =>
    rw [scanNumber.eq_def] at h
    simp only [if_neg hdigit, if_pos hdot, if_neg hnext] at h
    exact absurd (ih h).1 (by simp)
  | case5 c numStr hasDot hasE hdigit hdot he d ds hsign ih =>
    rw [scanNumber.eq_def] at h
    simp only [if_neg hdigit, if_neg hdot, if_pos he, if_pos hsign] at h
    exact absurd (ih h).1 (by simp)
  | case6 c numStr hasDot hasE hdigit hdot he d ds hsign ih =>
    rw [scanNumber.eq_def] at h
    simp only [if_neg hdigit, if_neg hdot, if_pos he, if_neg hsign] at h
    exact absurd (ih h).1 (by simp)
  | case7 c numStr hasDot hasE hdigit hdot he =>
    rw [scanNumber.eq_def] at h
    simp only [if_neg hdigit, if_neg hdot, if_pos he] at h
    simp at h
  | case8 c cs numStr hasDot hasE hdigit hdot he =>
    rw [scanNumber.eq_def] at h ⊢
    simp only [if_neg hdigit, if_neg hdot, if_neg he] at h ⊢
    exact ⟨h, by simp [takeBytes, hdigit]⟩

theorem digitValue_of_isDigit {c : Char} (h : c.isDigit = true) : digitValue c = c.toNat - 48 := by
  have hle : c.toNat ≤ 57 := by
    simp only [Char.isDigit, Bool.and_eq_true, decide_eq_true_eq] at h
    exact h.2
  rw [digitValue, if_pos hle]

theorem parseDigits_eq {ds : List Char} {n : Nat} (h : parseDigits ds = some n) : digitsValue 10 ds = n := by
  unfold parseDigits at h
  split at h
  · next hds =>
    have hall : ∀ c ∈ ds, c.isDigit = true := List.all_eq_true.mp hds.2
    rw [← Option.some.inj h]
    exact List.foldl_ext _ _ _ fun n c hc => by rw [digitValue_of_isDigit (hall c hc)]
  · cases h

theorem head?_takeBytes_isDigit {cs : List Char} {c : Char} (h : (takeBytes isAsciiDigit cs).head? = some c) :
    c.isDigit = true := by
  have hmem : c ∈ cs.takeWhile fun c => isAsciiDigit (lead c) := List.mem_of_mem_head? h
  have hlead := List.mem_takeWhile_imp hmem
  exact isDigit_lead.mp hlead

/-- The token of a decimal literal. -/
theorem numberToken_carries {cs : List Char} {token : Token} (h : numberToken (takeBytes isAsciiDigit cs) false = .ok token) :
    token.Carries (digitsValue 10 (takeBytes isAsciiDigit cs)) := by
  have hhead : ∀ {c : Char}, c.isDigit = false → (takeBytes isAsciiDigit cs).head? ≠ some c := by
    intro c hc hhead
    rw [head?_takeBytes_isDigit hhead] at hc
    nomatch hc
  have hminus := @hhead '-' rfl
  have hplus := @hhead '+' rfl
  generalize takeBytes isAsciiDigit cs = ds at h hminus hplus
  unfold numberToken at h
  rw [if_neg (by nofun)] at h
  split at h
  · next val hval =>
    cases h
    unfold parseSigned at hval
    obtain ⟨hval, hrange⟩ := Option.filter_eq_some_iff.mp hval
    have hrange := of_decide_eq_true hrange
    obtain ⟨n, hn, rfl⟩ : ∃ n : Nat, parseDigits ds = some n ∧ (n : Int) = val := by
      split at hval
      · exact absurd rfl hminus
      · exact absurd rfl hplus
      · cases hd : parseDigits ds with
        | none =>
          rw [hd] at hval
          nomatch hval
        | some n =>
          rw [hd] at hval
          exact ⟨n, rfl, Option.some.inj hval⟩
    rw [parseDigits_eq hn]
    exact Int64.toInt_ofInt_of_le hrange.1 hrange.2
  · split at h
    · next hmin =>
      cases h
      rw [hmin]
      exact show digitsValue 10 "9223372036854775808".toList = 2 ^ 63 by decide
    · cases h

/-! ## One round -/

theorem head?_takeBytes_ne_plus {p : UInt8 → Bool} (hp : p '+'.toUInt8 = false) (cs : List Char) :
    (takeBytes p cs).head? ≠ some '+' := by
  intro h
  have hmem : '+' ∈ cs.takeWhile fun c => p (lead c) := List.mem_of_mem_head? h
  have hplus := List.mem_takeWhile_imp hmem
  rw [lead_of_isAscii (by decide), hp] at hplus
  nomatch hplus

theorem lexRadix_carries {radix : Nat} {isDigit : UInt8 → Bool} (hp : ∀ b : UInt8, 128 ≤ b.toNat → isDigit b = false)
    (hplus : isDigit '+'.toUInt8 = false) {incomplete : String} {suf : List Char} {pos fuel stop : Nat} {token : Token}
    (h : StandsBefore input (pos + 2) suf) (hf : byteLen suf ≤ fuel)
    (hlex : lexRadix input (utf8 input) radix isDigit incomplete fuel pos = .ok (stop, token)) :
    token.Carries (digitsValue radix (takeBytes isDigit suf)) := by
  simp only [lexRadix, skipWhile_eq hp h hf, sliceText_takeBytes h, bind, Except.bind] at hlex
  cases htoken : radixToken radix (takeBytes isDigit suf) incomplete with
  | error message =>
    rw [htoken] at hlex
    cases hlex
  | ok token' =>
    rw [htoken] at hlex
    cases hlex
    exact radixToken_carries (head?_takeBytes_ne_plus hplus suf) htoken

/-- The token of a number. -/
theorem lexNumeric_carries {c : Char} {cs : List Char} {pos fuel stop : Nat} {token : Token}
    (h : StandsBefore input pos (c :: cs)) (hf : byteLen (c :: cs) ≤ fuel)
    (hlex : lexNumeric input (utf8 input) fuel pos (lead c) (cs.head?.map lead) = .ok (stop, token)) :
    token.Carries (literalValue (c :: cs)) := by
  have hcs : byteLen cs.tail ≤ fuel := by
    have := byteLen_tail_le cs
    rw [byteLen_cons] at hf
    omega
  have hzero : lead c = '0'.toUInt8 ↔ c = '0' := lead_eq_iff (by decide)
  have hletter : ∀ {d e : Char}, isAscii d = true → isAscii e = true →
      ((cs.head?.map lead = some d.toUInt8 ∨ cs.head?.map lead = some e.toUInt8) ↔ (cs.head? = some d ∨ cs.head? = some e)) :=
    fun hd he => or_congr (eq_of_head?_lead hd) (eq_of_head?_lead he)
  have hx := hletter (show isAscii 'x' = true by decide) (show isAscii 'X' = true by decide)
  have ho := hletter (show isAscii 'o' = true by decide) (show isAscii 'O' = true by decide)
  simp only [lexNumeric, hzero, hx, ho] at hlex
  simp only [literalValue, List.head?_cons, List.tail_cons, Option.some.injEq]
  split at hlex
  · next hhex =>
    rw [if_pos hhex]
    obtain ⟨rfl, hhex⟩ := hhex
    exact lexRadix_carries isAsciiHexdigit_high (by decide)
      (standsBefore_tail h (by decide) (by decide) (by decide) hhex) hcs hlex
  · next hhex =>
    rw [if_neg hhex]
    split at hlex
    · next hoct =>
      rw [if_pos hoct]
      obtain ⟨rfl, hoct⟩ := hoct
      exact lexRadix_carries isOctalDigit_high (by decide)
        (standsBefore_tail h (by decide) (by decide) (by decide) hoct) hcs hlex
    · next hoct =>
      rw [if_neg hoct]
      obtain ⟨stop', hstop, hrest⟩ := lexNumber_spec (c :: cs) [] false false h hf
      simp only [hstop, bind, Except.bind] at hlex
      cases htoken : numberToken (scanNumber (c :: cs) [] false false).2.1 (scanNumber (c :: cs) [] false false).2.2 with
      | error message =>
        rw [htoken] at hlex
        cases hlex
      | ok token' =>
        rw [htoken] at hlex
        cases hlex
        cases hdot : (scanNumber (c :: cs) [] false false).2.2 with
        | false =>
          rw [hdot, (scanNumber_digits _ _ _ _ hdot).2, List.nil_append] at htoken
          exact numberToken_carries htoken
        | true =>
          rw [hdot] at htoken
          unfold numberToken at htoken
          rw [if_pos rfl] at htoken
          split at htoken
          · cases htoken
          · split at htoken
            · cases htoken
            · cases htoken
              exact trivial

/-! ### Other tokens -/

/-- Another token carries any number. -/
theorem carries_of_not_int {token : Token} (h : token.isIntLiteral = false) (n : Nat) : token.Carries n := by
  cases token <;> first | exact trivial | nomatch h

theorem wordToken_not_int (word : List Char) : (wordToken word).isIntLiteral = false := by
  unfold wordToken
  split <;> rfl

theorem secondWord_not_int {word : List Char} {second : String} {token : Token} (h : secondWord word = some (second, token)) :
    token.isIntLiteral = false := by
  unfold secondWord at h
  split at h <;> cases h <;> rfl

/-- One more operator to look for. -/
theorem ite_not_int {c : Prop} [Decidable c] {token : Token} {o : Option Token} (htoken : token.isIntLiteral = false)
    (ho : ∀ t ∈ o, t.isIntLiteral = false) : ∀ t ∈ (if c then some token else o), t.isIntLiteral = false := by
  intro t ht
  split at ht
  · cases ht
    exact htoken
  · exact ho t ht

theorem pairToken_not_int (b : UInt8) (next : Option UInt8) : ∀ t ∈ pairToken b next, t.isIntLiteral = false := by
  unfold pairToken
  repeat' refine ite_not_int rfl ?_
  nofun

theorem punctuation_not_int (b : UInt8) : ∀ t ∈ punctuation b, t.isIntLiteral = false := by
  unfold punctuation
  repeat' refine ite_not_int rfl ?_
  nofun

theorem lexWord_not_int {bytes : List UInt8} {fuel pos stop : Nat} {token : Token}
    (h : lexWord input bytes fuel pos = .ok (stop, token)) : token.isIntLiteral = false := by
  simp only [lexWord, bind, Except.bind, pure, Except.pure] at h
  split at h
  · cases h
  split at h
  · cases h
  split at h
  · next hsecond =>
    split at h
    · cases h
    split at h
    · cases h
    split at h
    · cases h
    split at h
    · cases h
      exact secondWord_not_int hsecond
    · cases h
      rfl
  · cases h
    exact wordToken_not_int _

theorem lexOperator_not_int {pos : Nat} {b : UInt8} {next : Option UInt8} {stop : Nat} {token : Token}
    (h : lexOperator pos b next = .ok (stop, token)) : token.isIntLiteral = false := by
  unfold lexOperator at h
  split at h
  · next hpair =>
    cases h
    exact pairToken_not_int _ _ _ hpair
  · split at h
    · next hone =>
      cases h
      exact punctuation_not_int _ _ hone
    · cases h

theorem map_eq_ok {ε α β : Type} {r : Except ε α} {f : α → β} {b : β} (h : r.map f = .ok b) : ∃ a, r = .ok a ∧ f a = b := by
  cases r with
  | error e => cases h
  | ok a => exact ⟨a, rfl, Except.ok.inj h⟩

/-- The token of a lexeme. -/
theorem lexToken_carries {c : Char} {cs : List Char} {pos fuel stop : Nat} {token : Token}
    (h : StandsBefore input pos (c :: cs)) (hf : byteLen (c :: cs) ≤ fuel)
    (hlex : lexToken input (utf8 input) fuel pos (lead c) (utf8 input)[pos + 1]? = .ok (stop, token)) :
    token.Carries (literalValue (c :: cs)) := by
  have hother : token.isIntLiteral = false → token.Carries (literalValue (c :: cs)) := fun h => carries_of_not_int h _
  unfold lexToken at hlex
  split at hlex
  · obtain ⟨stop', -, heq⟩ := map_eq_ok hlex
    cases heq
    exact trivial
  split at hlex
  · obtain ⟨stop', -, heq⟩ := map_eq_ok hlex
    cases heq
    exact trivial
  split at hlex
  · obtain ⟨stop', -, heq⟩ := map_eq_ok hlex
    cases heq
    exact trivial
  split at hlex
  · next hnumber =>
    have ha : isAscii c = true := by
      rcases hnumber with hdigit | ⟨hdot, -⟩
      · exact isAscii_of_byte isAsciiDigit_high hdigit
      · rw [lead_dot.mp hdot]
        decide
    rw [h.lead_next ha] at hlex
    exact lexNumeric_carries h hf hlex
  split at hlex
  · simp only [lexParameter, bind, Except.bind, pure, Except.pure] at hlex
    split at hlex
    · cases hlex
    split at hlex
    · cases hlex
    cases hlex
    exact trivial
  split at hlex
  · exact hother (lexWord_not_int hlex)
  · exact hother (lexOperator_not_int hlex)

/-- The token of a round starts where the round does, and carries what is written there. -/
theorem lexRound_carries {c : Char} {cs : List Char} {pos fuel stop : Nat} {t : LexedToken}
    (h : StandsBefore input pos (c :: cs)) (hf : byteLen (c :: cs) ≤ fuel)
    (hlex : lexRound input (utf8 input) fuel pos = .ok (stop, some t)) :
    t.offset = pos ∧ t.token.Carries (literalValue (c :: cs)) := by
  rw [lexRound_eq h.lead_eq] at hlex
  split at hlex
  · cases hlex
  split at hlex
  · obtain ⟨_, -, heq⟩ := map_eq_ok hlex
    cases heq
  split at hlex
  · obtain ⟨_, -, heq⟩ := map_eq_ok hlex
    cases heq
  · obtain ⟨⟨stop', token⟩, htoken, heq⟩ := map_eq_ok hlex
    cases heq
    exact ⟨rfl, lexToken_carries h hf htoken⟩

/-! ## Runs -/

theorem textAt_of_standsBefore {suf : List Char} {pos : Nat} (h : StandsBefore input pos suf) : textAt input pos = suf := by
  obtain ⟨pre, rfl, rfl⟩ := h
  rw [textAt, dropTo_append, Option.getD_some]

/-- Every token carries what is written where it starts. -/
def AllCarry (input : List Char) (tokens : List LexedToken) : Prop :=
  ∀ t ∈ tokens, t.token.Carries (literalValue (textAt input t.offset))

/-- The run lemma, by induction on the rounds that are left. -/
theorem lexLoop_carries : ∀ {fuel pos : Nat} {suf : List Char} {tokens out : List LexedToken}, AllCarry input tokens →
    StandsBefore input pos suf → lexLoop input (utf8 input) fuel pos tokens = .ok out → AllCarry input out
  | fuel, pos, [], tokens, out, hall, h, hrun => by
    have hlt : ¬pos < (utf8 input).length := by
      rw [h.length_eq, byteLen_nil]
      omega
    unfold lexLoop at hrun
    rw [if_neg hlt] at hrun
    cases hrun
    intro t ht
    rcases List.mem_append.mp ht with ht | ht
    · exact hall t ht
    · rw [List.mem_singleton.mp ht]
      exact trivial
  | fuel, pos, c :: cs, tokens, out, hall, h, hrun => by
    have hbytes : byteLen (c :: cs) ≤ (utf8 input).length := by
      rw [h.length_eq]
      omega
    have hlt : pos < (utf8 input).length := by
      have := c.utf8Size_pos
      rw [h.length_eq, byteLen_cons]
      omega
    unfold lexLoop at hrun
    rw [if_pos hlt] at hrun
    cases fuel with
    | zero => cases hrun
    | succ fuel =>
      have hround := roundResult h hbytes
      have hcarries := @lexRound_carries input c cs pos (utf8 input).length
      simp only at hrun
      generalize lexRound input (utf8 input) (utf8 input).length pos = r at hround hcarries hrun
      cases hround with
      | @lexeme rest stop token hl hm hrest =>
        refine lexLoop_carries ?_ hrest hrun
        intro t ht
        rcases List.mem_append.mp ht with ht | ht
        · exact hall t ht
        · obtain rfl := Option.mem_toList.mp ht
          obtain ⟨hoffset, ht⟩ := hcarries h hbytes rfl
          rwa [hoffset, textAt_of_standsBefore h]
      | refused => cases hrun
      | split => cases hrun

end IntTokensAux

/-- Every integer token of a query carries the number that is written where it starts. -/
theorem lex_carries {tokens : List LexedToken} (h : lex input = .ok tokens) {t : LexedToken} (ht : t ∈ tokens) :
    t.token.Carries (literalValue (textAt input t.offset)) := by
  refine IntTokensAux.lexLoop_carries ?_ (StandsBefore.start input) h t ht
  intro t ht
  exact absurd ht List.not_mem_nil

end PgEddy
