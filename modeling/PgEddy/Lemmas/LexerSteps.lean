import PgEddy.Lexemes

/-!
# What the lexer does with a lexeme

Standing before a lexeme the lexer stops behind it, or with an error of its own. One lemma for each kind of lexeme; each of them
goes character by character, where the lexer goes byte by byte.
-/

namespace PgEddy

open Text

variable {input : List Char}

/-- The result is a position before a text, or an error of the lexer. -/
def StopsBefore {α : Type} (input : List Char) (r : LexM (Nat × α)) : Option (List Char) → Prop
  | some rest => ∃ stop a, r = .ok (stop, a) ∧ StandsBefore input stop rest
  | none => ∃ e, r = .error (.error e)

theorem StopsBefore.map {α β : Type} {r : LexM (Nat × α)} {rest : Option (List Char)} (h : StopsBefore input r rest)
    (f : α → β) : StopsBefore input (r.map (fun stop => (stop.1, f stop.2))) rest := by
  cases rest with
  | some rest =>
    obtain ⟨stop, a, rfl, hrest⟩ := h
    exact ⟨stop, f a, rfl, hrest⟩
  | none =>
    obtain ⟨e, rfl⟩ := h
    exact ⟨e, rfl⟩

namespace LexerAux

/-! ## Runs of bytes -/

theorem skipWhile_stop {bytes : List UInt8} {p : UInt8 → Bool} {pos : Nat} (h : ∀ b, bytes[pos]? = some b → p b = false)
    (fuel : Nat) : skipWhile bytes p fuel pos = .ok pos := by
  unfold skipWhile
  cases hb : bytes[pos]? with
  | none => rfl
  | some b => simp only [h b hb, Bool.false_eq_true, if_false]

theorem skipWhile_add (bytes : List UInt8) (p : UInt8 → Bool) (fuel : Nat) :
    ∀ (i pos : Nat), (∀ j < i, ∃ b, bytes[pos + j]? = some b ∧ p b = true) →
      skipWhile bytes p (fuel + i) pos = skipWhile bytes p fuel (pos + i)
  | 0, _, _ => rfl
  | i + 1, pos, h => by
    obtain ⟨b, hb, hp⟩ := h 0 (Nat.succ_pos i)
    have hrest := skipWhile_add bytes p fuel i (pos + 1) fun j hj => by
      have hnext := h (j + 1) (Nat.succ_lt_succ hj)
      rwa [show pos + 1 + j = pos + (j + 1) by omega]
    rw [← Nat.add_assoc fuel i 1, skipWhile, show bytes[pos]? = some b from hb]
    simp only [hp, if_true]
    rw [hrest, Nat.add_assoc, Nat.add_comm 1 i]

/-- The bytes of a character meet a condition with the first, if the condition is the same for all bytes from 128 on. -/
theorem all_bytes {p : UInt8 → Bool} {k : Bool} (hp : ∀ b : UInt8, 128 ≤ b.toNat → p b = k) {c : Char}
    (hc : p (lead c) = true) : ∀ b ∈ String.utf8EncodeChar c, p b = true := by
  intro b hb
  cases ha : isAscii c with
  | true =>
    rw [encodeChar_of_isAscii ha, List.mem_singleton, ← lead_of_isAscii ha] at hb
    rw [hb, hc]
  | false => rw [hp b (le_of_mem_encodeChar ha hb), ← hp (lead c) (le_lead ha), hc]

theorem takeBytes_append_afterBytes (p : UInt8 → Bool) (cs : List Char) : takeBytes p cs ++ afterBytes p cs = cs :=
  List.takeWhile_append_dropWhile

/-- A loop over bytes stops behind the characters whose first bytes meet the condition. -/
theorem skipWhile_eq {p : UInt8 → Bool} {k : Bool} (hp : ∀ b : UInt8, 128 ≤ b.toNat → p b = k) {suf : List Char} :
    ∀ {pos fuel : Nat}, StandsBefore input pos suf → byteLen suf ≤ fuel →
      skipWhile (utf8 input) p fuel pos = .ok (pos + byteLen (takeBytes p suf)) := by
  induction suf with
  | nil =>
    intro pos fuel h _
    exact skipWhile_stop (by simp [h.eq_none]) fuel
  | cons c cs ih =>
    intro pos fuel h hf
    cases hc : p (lead c) with
    | false =>
      rw [takeBytes, List.takeWhile_cons_of_neg (by simp [hc])]
      exact skipWhile_stop (fun b hb => Option.some.inj (h.lead_eq.symm.trans hb) ▸ hc) fuel
    | true =>
      rw [byteLen_cons] at hf
      obtain ⟨rest, rfl⟩ : ∃ rest, fuel = rest + c.utf8Size := ⟨fuel - c.utf8Size, by omega⟩
      have hbytes : ∀ j < c.utf8Size, ∃ b, (utf8 input)[pos + j]? = some b ∧ p b = true := by
        intro j hj
        obtain ⟨b, hb, hbyte⟩ := h.byte_mem hj
        exact ⟨b, hbyte, all_bytes hp hc b hb⟩
      have htake : takeBytes p (c :: cs) = c :: takeBytes p cs := List.takeWhile_cons_of_pos hc
      rw [skipWhile_add _ _ _ _ _ hbytes, ih h.next (by omega), htake, byteLen_cons, Nat.add_assoc]

theorem standsBefore_afterBytes {suf : List Char} {pos : Nat} (h : StandsBefore input pos suf) (p : UInt8 → Bool) :
    StandsBefore input (pos + byteLen (takeBytes p suf)) (afterBytes p suf) := by
  rw [← takeBytes_append_afterBytes p suf] at h
  exact h.drop

theorem sliceText_takeBytes {suf : List Char} {pos : Nat} (h : StandsBefore input pos suf) (p : UInt8 → Bool) :
    sliceText input pos (pos + byteLen (takeBytes p suf)) = .ok (takeBytes p suf) := by
  rw [← takeBytes_append_afterBytes p suf] at h
  rw [sliceText, h.cut_eq]
  rfl

theorem byteLen_afterBytes_le (p : UInt8 → Bool) (cs : List Char) : byteLen (afterBytes p cs) ≤ byteLen cs := by
  have hlen := congrArg byteLen (takeBytes_append_afterBytes p cs)
  rw [byteLen_append] at hlen
  omega

/-! ## The conditions on bytes -/

theorem high_ne {b k : UInt8} (h : 128 ≤ b.toNat) (hk : k.toNat < 128) : b ≠ k := by
  rintro rfl
  omega

theorem high_not_le {b k : UInt8} (h : 128 ≤ b.toNat) (hk : k.toNat < 128) : ¬b ≤ k := by
  rw [UInt8.le_iff_toNat_le]
  omega

theorem isAsciiWhitespace_high (b : UInt8) (h : 128 ≤ b.toNat) : isAsciiWhitespace b = false := by
  simp (disch := decide) only [isAsciiWhitespace, high_ne h, decide_false, Bool.or_self]

theorem isAsciiDigit_high (b : UInt8) (h : 128 ≤ b.toNat) : isAsciiDigit b = false := by
  simp (disch := decide) only [isAsciiDigit, high_not_le h, decide_false, Bool.and_false]

theorem isAsciiAlphabetic_high (b : UInt8) (h : 128 ≤ b.toNat) : isAsciiAlphabetic b = false := by
  simp (disch := decide) only [isAsciiAlphabetic, high_not_le h, decide_false, Bool.and_false, Bool.or_self]

theorem isWordByte_high (b : UInt8) (h : 128 ≤ b.toNat) : isWordByte b = false := by
  simp (disch := decide) only [isWordByte, isAsciiAlphanumeric, isAsciiAlphabetic_high b h, isAsciiDigit_high b h, high_ne h,
    decide_false, Bool.or_self]

theorem isAsciiHexdigit_high (b : UInt8) (h : 128 ≤ b.toNat) : isAsciiHexdigit b = false := by
  simp (disch := decide) only [isAsciiHexdigit, isAsciiDigit_high b h, high_not_le h, decide_false, Bool.and_false, Bool.or_self]

theorem isOctalDigit_high (b : UInt8) (h : 128 ≤ b.toNat) : isOctalDigit b = false := by
  simp (disch := decide) only [isOctalDigit, high_not_le h, decide_false, Bool.and_false]

theorem ne_newline_high (b : UInt8) (h : 128 ≤ b.toNat) : decide (b ≠ '\n'.toUInt8) = true :=
  decide_eq_true (high_ne h (by decide))

/-! ## Comments -/

theorem skipComment_stop {bytes : List UInt8} {pos : Nat}
    (h : ¬(pos + 1 < bytes.length ∧ ¬(bytes[pos]? = some '*'.toUInt8 ∧ bytes[pos + 1]? = some '/'.toUInt8))) (fuel : Nat) :
    skipComment bytes fuel pos = .ok pos := by
  unfold skipComment
  rw [if_neg h]

theorem skipComment_step {bytes : List UInt8} {pos : Nat} (hlt : pos + 1 < bytes.length)
    (h : ¬(bytes[pos]? = some '*'.toUInt8 ∧ bytes[pos + 1]? = some '/'.toUInt8)) (fuel : Nat) :
    skipComment bytes (fuel + 1) pos = skipComment bytes fuel (pos + 1) := by
  rw [skipComment, if_pos ⟨hlt, h⟩]

theorem skipComment_add {bytes : List UInt8} (fuel : Nat) :
    ∀ (i pos : Nat), (∀ j < i, ∃ b, bytes[pos + j]? = some b ∧ 128 ≤ b.toNat) → pos + i < bytes.length →
      skipComment bytes (fuel + i) pos = skipComment bytes fuel (pos + i)
  | 0, _, _, _ => rfl
  | i + 1, pos, h, hlt => by
    obtain ⟨b, hb, hhigh⟩ := h 0 (Nat.succ_pos i)
    have hrest := skipComment_add fuel i (pos + 1) (fun j hj => by
      have hnext := h (j + 1) (Nat.succ_lt_succ hj)
      rwa [show pos + 1 + j = pos + (j + 1) by omega]) (by omega)
    have hstar : bytes[pos]? ≠ some '*'.toUInt8 := by
      rw [show bytes[pos]? = some b from hb]
      exact fun h => high_ne hhigh (by decide) (Option.some.inj h)
    rw [← Nat.add_assoc fuel i 1, skipComment_step (by omega) (fun h => hstar h.1), hrest, Nat.add_assoc, Nat.add_comm 1 i]

theorem skipComment_spec : ∀ {suf : List Char} {pos fuel : Nat}, StandsBefore input pos suf → byteLen suf ≤ fuel →
    ∃ p, skipComment (utf8 input) fuel pos = .ok p ∧
      match afterComment suf with
      | some rest => StandsBefore input (p + 2) rest
      | none => (utf8 input).length ≤ p + 1
  | [], pos, fuel, h, _ => by
    have hlen := h.length_eq
    rw [byteLen_nil] at hlen
    exact ⟨pos, skipComment_stop (by omega) fuel, by simp only [afterComment]; omega⟩
  | [c], pos, fuel, h, hf => by
    -- the last character is passed but for its last byte
    have hlen := h.length_eq
    rw [byteLen_cons, byteLen_nil] at hlen hf
    have hpos := c.utf8Size_pos
    obtain ⟨k, hk⟩ : ∃ k, c.utf8Size = k + 1 := ⟨c.utf8Size - 1, by omega⟩
    obtain ⟨rest, rfl⟩ : ∃ rest, fuel = rest + k := ⟨fuel - k, by omega⟩
    have hhigh : ∀ j < k, ∃ b, (utf8 input)[pos + j]? = some b ∧ 128 ≤ b.toNat := by
      intro j hj
      obtain ⟨b, hb, hbyte⟩ := h.byte_mem (show j < c.utf8Size by omega)
      cases ha : isAscii c with
      | true => rw [utf8Size_of_isAscii ha] at hk; omega
      | false => exact ⟨b, hbyte, le_of_mem_encodeChar ha hb⟩
    refine ⟨pos + k, ?_, by simp only [afterComment]; omega⟩
    rw [skipComment_add rest k pos hhigh (by omega)]
    exact skipComment_stop (by omega) rest
  | c :: d :: cs, pos, fuel, h, hf => by
    have hlen := h.length_eq
    rw [byteLen_cons, byteLen_cons] at hlen
    rw [byteLen_cons] at hf
    have hpos := c.utf8Size_pos
    have hposd := d.utf8Size_pos
    obtain ⟨rest, rfl⟩ : ∃ rest, fuel = rest + c.utf8Size := ⟨fuel - c.utf8Size, by omega⟩
    by_cases hend : c = '*' ∧ d = '/'
    · obtain ⟨rfl, rfl⟩ := hend
      have hnext : (utf8 input)[pos + 1]? = some (lead '/') := (h.next_ascii (by decide)).lead_eq
      refine ⟨pos, skipComment_stop (fun hstep => hstep.2 ⟨h.lead_eq, hnext⟩) _, ?_⟩
      simp only [afterComment, and_self, if_true]
      exact (h.next_ascii (by decide)).next_ascii (by decide)
    · have hafter : afterComment (c :: d :: cs) = afterComment (d :: cs) := by rw [afterComment, if_neg hend]
      rw [hafter]
      have hskip : skipComment (utf8 input) (rest + c.utf8Size) pos =
          skipComment (utf8 input) rest (pos + c.utf8Size) := by
        cases ha : isAscii c with
        | true =>
          rw [utf8Size_of_isAscii ha]
          refine skipComment_step (by omega) (fun hstar => hend ?_) rest
          rw [h.lead_eq, h.lead_next ha, List.head?_cons, Option.map_some] at hstar
          exact ⟨(lead_eq_iff (by decide)).mp (Option.some.inj hstar.1), (lead_eq_iff (by decide)).mp (Option.some.inj hstar.2)⟩
        | false =>
          refine skipComment_add rest _ pos (fun j hj => ?_) (by omega)
          obtain ⟨b, hb, hbyte⟩ := h.byte_mem hj
          exact ⟨b, hbyte, le_of_mem_encodeChar ha hb⟩
      rw [hskip]
      exact skipComment_spec h.next (by omega)

/-- A block comment, before the text behind its first two characters. -/
theorem lexComment_spec {suf : List Char} {pos fuel : Nat} (h : StandsBefore input (pos + 2) suf) (hf : byteLen suf ≤ fuel) :
    match afterComment suf with
    | some rest => ∃ stop, lexComment (utf8 input) fuel pos = .ok stop ∧ StandsBefore input stop rest
    | none => ∃ e, lexComment (utf8 input) fuel pos = .error (.error e) := by
  obtain ⟨p, hp, hspec⟩ := skipComment_spec h hf
  cases hafter : afterComment suf with
  | some rest =>
    rw [hafter] at hspec
    refine ⟨p + 2, ?_, hspec⟩
    have hlt : ¬(utf8 input).length ≤ p + 1 := by
      have := StandsBefore.length_eq hspec
      omega
    simp only [lexComment, hp, bind, Except.bind, if_neg hlt]
    rfl
  | none =>
    rw [hafter] at hspec
    refine ⟨⟨"unterminated block comment", pos + 2 - 2⟩, ?_⟩
    simp only [lexComment, hp, bind, Except.bind, if_pos hspec]
    rfl

/-! ## Numbers -/

theorem isAscii_of_byte {p : UInt8 → Bool} (hp : ∀ b : UInt8, 128 ≤ b.toNat → p b = false) {c : Char}
    (hc : p (lead c) = true) : isAscii c = true := by
  cases ha : isAscii c with
  | true => rfl
  | false => rw [hp _ (le_lead ha)] at hc; cases hc

theorem byteChar_lead {c : Char} (h : isAscii c = true) : byteChar (lead c) = c := by
  rw [byteChar, toNat_lead_of_isAscii h, Char.ofNat_toNat]

theorem eq_of_head?_lead {cs : List Char} {d : Char} (hd : isAscii d = true) :
    cs.head?.map lead = some d.toUInt8 ↔ cs.head? = some d := by
  rw [Option.map_eq_some_iff]
  constructor
  · rintro ⟨c, hc, hlead⟩
    rw [hc, (lead_eq_iff hd).mp hlead]
  · intro h
    exact ⟨d, h, lead_of_isAscii hd⟩

theorem lead_dot {c : Char} : lead c = '.'.toUInt8 ↔ c = '.' := lead_eq_iff (by decide)

theorem lead_exponent {c : Char} : (lead c = 'e'.toUInt8 ∨ lead c = 'E'.toUInt8) ↔ (c = 'e' ∨ c = 'E') :=
  or_congr (lead_eq_iff (by decide)) (lead_eq_iff (by decide))

theorem lead_sign {c : Char} : (lead c = '+'.toUInt8 ∨ lead c = '-'.toUInt8) ↔ (c = '+' ∨ c = '-') :=
  or_congr (lead_eq_iff (by decide)) (lead_eq_iff (by decide))

/-- The loop over a decimal literal. -/
theorem lexNumber_spec (suf numStr : List Char) (hasDot hasE : Bool) : ∀ {pos fuel : Nat}, StandsBefore input pos suf →
    byteLen suf ≤ fuel →
      ∃ stop, lexNumber (utf8 input) fuel pos numStr hasDot hasE =
        .ok (stop, (scanNumber suf numStr hasDot hasE).2) ∧ StandsBefore input stop (scanNumber suf numStr hasDot hasE).1 := by
  -- one round where a byte is left
  have hround : ∀ {c : Char} {cs : List Char} {pos fuel : Nat}, byteLen (c :: cs) ≤ fuel →
      ∃ rest, fuel = rest + 1 ∧ byteLen cs ≤ rest := by
    intro c cs pos fuel hf
    have := c.utf8Size_pos
    rw [byteLen_cons] at hf
    exact ⟨fuel - 1, by omega, by omega⟩
  induction suf, numStr, hasDot, hasE using scanNumber.induct with
  | case1 numStr hasDot hasE =>
    intro pos fuel h _
    refine ⟨pos, ?_, h⟩
    unfold lexNumber
    simp only [h.eq_none, scanNumber]
  | case2 c cs numStr hasDot hasE hdigit ih =>
    intro pos fuel h hf
    obtain ⟨fuel', rfl, hf'⟩ := @hround _ _ pos _ hf
    have ha := isAscii_of_byte isAsciiDigit_high hdigit
    obtain ⟨stop, hstop, hrest⟩ := ih (h.next_ascii ha) hf'
    rw [scanNumber.eq_def]
    refine ⟨stop, ?_, by simpa only [if_pos hdigit] using hrest⟩
    rw [lexNumber, h.lead_eq]
    simp only [hdigit, if_true, byteChar_lead ha]
    exact hstop
  | case3 c cs numStr hasDot hasE hdigit hdot hnext =>
    intro pos fuel h hf
    obtain ⟨fuel', rfl, hf'⟩ := @hround _ _ pos _ hf
    obtain ⟨rfl, rfl, rfl⟩ := hdot
    have hbyte : (utf8 input)[pos + 1]? = some '.'.toUInt8 := by
      rw [h.lead_next (by decide), eq_of_head?_lead (by decide), hnext]
    refine ⟨pos, ?_, ?_⟩
    · unfold scanNumber
      rw [lexNumber, h.lead_eq]
      simp only [if_neg hdigit, lead_dot, hbyte, hnext, and_self, if_true]
    · unfold scanNumber
      simpa only [if_neg hdigit, hnext, and_self, if_true] using h
  | case4 c cs numStr hasDot hasE hdigit hdot hnext ih =>
    intro pos fuel h hf
    obtain ⟨fuel', rfl, hf'⟩ := @hround _ _ pos _ hf
    obtain ⟨rfl, rfl, rfl⟩ := hdot
    have hbyte : ¬(utf8 input)[pos + 1]? = some '.'.toUInt8 := by
      rwa [h.lead_next (by decide), eq_of_head?_lead (by decide)]
    obtain ⟨stop, hstop, hrest⟩ := ih (h.next_ascii (by decide)) hf'
    rw [scanNumber.eq_def]
    refine ⟨stop, ?_, by simpa only [if_neg hdigit, hnext, and_self, if_true, if_false] using hrest⟩
    rw [lexNumber, h.lead_eq]
    simp only [if_neg hdigit, lead_dot, hbyte, hnext, and_self, if_true, if_false]
    exact hstop
  | case5 c numStr hasDot hasE hdigit hdot he d ds hsign ih =>
    intro pos fuel h hf
    obtain ⟨fuel', rfl, hf'⟩ := @hround _ _ pos _ hf
    have ha : isAscii c = true := by rcases he.1 with rfl | rfl <;> decide
    have hd : isAscii d = true := by rcases hsign with rfl | rfl <;> decide
    rw [byteLen_cons, utf8Size_of_isAscii hd] at hf'
    obtain ⟨stop, hstop, hrest⟩ := @ih (pos + 1 + 1) fuel' ((h.next_ascii ha).next_ascii hd) (by omega)
    refine ⟨stop, ?_, ?_⟩
    · rw [lexNumber, h.lead_eq, scanNumber, if_neg hdigit]
      simp only [if_neg hdigit, lead_dot, lead_exponent, if_neg hdot, if_pos he, h.lead_next ha, List.head?_cons,
        Option.map_some, lead_sign, if_pos hsign, byteChar_lead hd]
      exact hstop
    · rw [scanNumber, if_neg hdigit, if_neg hdot, if_pos he]
      simpa only [if_pos hsign] using hrest
  | case6 c numStr hasDot hasE hdigit hdot he d ds hsign ih =>
    intro pos fuel h hf
    obtain ⟨fuel', rfl, hf'⟩ := @hround _ _ pos _ hf
    have ha : isAscii c = true := by rcases he.1 with rfl | rfl <;> decide
    obtain ⟨stop, hstop, hrest⟩ := ih (h.next_ascii ha) hf'
    refine ⟨stop, ?_, ?_⟩
    · rw [lexNumber, h.lead_eq, scanNumber, if_neg hdigit]
      simp only [if_neg hdigit, lead_dot, lead_exponent, if_neg hdot, if_pos he, h.lead_next ha, List.head?_cons,
        Option.map_some, lead_sign, if_neg hsign]
      exact hstop
    · rw [scanNumber, if_neg hdigit, if_neg hdot, if_pos he]
      simpa only [if_neg hsign] using hrest
  | case7 c numStr hasDot hasE hdigit hdot he =>
    intro pos fuel h hf
    obtain ⟨fuel', rfl, hf'⟩ := @hround _ _ pos _ hf
    have ha : isAscii c = true := by rcases he.1 with rfl | rfl <;> decide
    have hend := (h.next_ascii ha).eq_none
    refine ⟨pos + 1, ?_, ?_⟩
    · rw [lexNumber, h.lead_eq, scanNumber, if_neg hdigit]
      simp only [if_neg hdigit, lead_dot, lead_exponent, if_neg hdot, if_pos he, hend]
      unfold lexNumber
      simp only [hend]
    · rw [scanNumber, if_neg hdigit, if_neg hdot, if_pos he]
      exact h.next_ascii ha
  | case8 c cs numStr hasDot hasE hdigit hdot he =>
    intro pos fuel h hf
    obtain ⟨fuel', rfl, hf'⟩ := @hround _ _ pos _ hf
    refine ⟨pos, ?_, ?_⟩
    · unfold scanNumber
      rw [lexNumber, h.lead_eq]
      simp only [if_neg hdigit, lead_dot, lead_exponent, if_neg hdot, if_neg he]
    · unfold scanNumber
      rwa [if_neg hdigit, if_neg hdot, if_neg he]

/-- What follows a value read from a text, or its error. -/
theorem stopsBefore_orLexError {stop : Nat} {rest : List Char} (h : StandsBefore input stop rest) (offset : Nat)
    (r : Except String Token) :
    StopsBefore input (do let token ← orLexError offset r; return (stop, token)) (r.toOption.map (fun _ => rest)) := by
  cases r with
  | ok token => exact ⟨stop, token, rfl, h⟩
  | error message => exact ⟨⟨message, offset⟩, rfl⟩

theorem lexRadix_spec {radix : Nat} {isDigit : UInt8 → Bool} (hp : ∀ b : UInt8, 128 ≤ b.toNat → isDigit b = false)
    (incomplete : String) {suf : List Char} {pos fuel : Nat} (h : StandsBefore input (pos + 2) suf) (hf : byteLen suf ≤ fuel) :
    StopsBefore input (lexRadix input (utf8 input) radix isDigit incomplete fuel pos)
      (afterRadix radix isDigit incomplete suf) := by
  simp only [lexRadix, skipWhile_eq hp h hf, sliceText_takeBytes h, bind, Except.bind]
  exact stopsBefore_orLexError (standsBefore_afterBytes h isDigit) pos _

/-- The text behind the letter that starts a hexadecimal or octal literal. -/
theorem standsBefore_tail {c d e : Char} {cs : List Char} {pos : Nat} (h : StandsBefore input pos (c :: cs))
    (hc : isAscii c = true) (hd : isAscii d = true) (he : isAscii e = true) (hcs : cs.head? = some d ∨ cs.head? = some e) :
    StandsBefore input (pos + 2) cs.tail := by
  cases cs with
  | nil => simp at hcs
  | cons a cs =>
    have ha : isAscii a = true := by
      rcases hcs with hcs | hcs <;> cases Option.some.inj hcs <;> assumption
    exact (h.next_ascii hc).next_ascii ha

theorem byteLen_tail_le (cs : List Char) : byteLen cs.tail ≤ byteLen cs := by
  cases cs with
  | nil => exact Nat.le_refl _
  | cons c cs => exact Nat.le_add_left _ _

theorem lexNumeric_spec {c : Char} {cs : List Char} {pos fuel : Nat} (h : StandsBefore input pos (c :: cs))
    (hf : byteLen (c :: cs) ≤ fuel) :
    StopsBefore input (lexNumeric input (utf8 input) fuel pos (lead c) (cs.head?.map lead)) (afterNumeric c cs) := by
  have hcs : byteLen cs.tail ≤ fuel := by
    have := byteLen_tail_le cs
    rw [byteLen_cons] at hf
    omega
  have hzero : lead c = '0'.toUInt8 ↔ c = '0' := lead_eq_iff (by decide)
  have hletter : ∀ {d e : Char}, isAscii d = true → isAscii e = true →
      ((cs.head?.map lead = some d.toUInt8 ∨ cs.head?.map lead = some e.toUInt8) ↔ (cs.head? = some d ∨ cs.head? = some e)) :=
    fun hd he => or_congr (eq_of_head?_lead hd) (eq_of_head?_lead he)
  have hx := hletter (show isAscii 'x' = true by decide) (show isAscii 'X' = true by decide)
  have ho := hletter (show isAscii 'o' = true by decide) (show isAscii 'O' = true by decide)
  simp only [lexNumeric, afterNumeric, hzero, hx, ho]
  split
  · next hhex =>
    obtain ⟨rfl, hhex⟩ := hhex
    exact lexRadix_spec isAsciiHexdigit_high _ (standsBefore_tail h (by decide) (by decide) (by decide) hhex) hcs
  · split
    · next hoct =>
      obtain ⟨rfl, hoct⟩ := hoct
      exact lexRadix_spec isOctalDigit_high _ (standsBefore_tail h (by decide) (by decide) (by decide) hoct) hcs
    · obtain ⟨stop, hstop, hrest⟩ := lexNumber_spec (c :: cs) [] false false h hf
      simp only [hstop, bind, Except.bind]
      exact stopsBefore_orLexError hrest pos _

/-! ## Words and operators -/

theorem lexWord_spec {suf : List Char} {pos fuel : Nat} (h : StandsBefore input pos suf) (hf : byteLen suf ≤ fuel) :
    StopsBefore input (lexWord input (utf8 input) fuel pos) (some (afterWord suf)) := by
  have hword := standsBefore_afterBytes h isWordByte
  have hkw := standsBefore_afterBytes hword isAsciiWhitespace
  have hf' : byteLen (afterBytes isWordByte suf) ≤ fuel := Nat.le_trans (byteLen_afterBytes_le ..) hf
  have hf'' : byteLen (afterBytes isAsciiWhitespace (afterBytes isWordByte suf)) ≤ fuel :=
    Nat.le_trans (byteLen_afterBytes_le ..) hf'
  simp only [lexWord, skipWhile_eq isWordByte_high h hf, sliceText_takeBytes h, bind, Except.bind, afterWord]
  cases secondWord (takeBytes isWordByte suf) with
  | none => exact ⟨_, _, rfl, hword⟩
  | some second =>
    simp only [skipWhile_eq isAsciiWhitespace_high hword hf', skipWhile_eq isAsciiAlphabetic_high hkw hf'', sliceText_takeBytes hkw]
    split
    · exact ⟨_, _, rfl, standsBefore_afterBytes hkw isAsciiAlphabetic⟩
    · exact ⟨_, _, rfl, hword⟩

theorem lexParameter_spec {c : Char} {cs : List Char} {pos fuel : Nat} (h : StandsBefore input pos (c :: cs))
    (hc : isAscii c = true) (hf : byteLen (c :: cs) ≤ fuel) :
    StopsBefore input (lexParameter input (utf8 input) fuel pos) (some (afterBytes isWordByte cs)) := by
  have hnext := h.next_ascii hc
  have hcs : byteLen cs ≤ fuel := by
    rw [byteLen_cons] at hf
    omega
  simp only [lexParameter, skipWhile_eq isWordByte_high hnext hcs, sliceText_takeBytes hnext, bind, Except.bind]
  exact ⟨_, _, rfl, standsBefore_afterBytes hnext isWordByte⟩

theorem pairToken_ascii {c : Char} {next : Option UInt8} {token : Token} (h : pairToken (lead c) next = some token) :
    isAscii c = true := by
  refine @isAscii_of_byte (fun b => (pairToken b next).isSome) (fun b hb => ?_) c (by simp only [h, Option.isSome_some])
  simp (disch := decide) only [pairToken, high_ne hb, false_and, if_false, Option.isSome_none]

theorem punctuation_ascii {c : Char} {token : Token} (h : punctuation (lead c) = some token) : isAscii c = true := by
  refine @isAscii_of_byte (fun b => (punctuation b).isSome) (fun b hb => ?_) c (by simp only [h, Option.isSome_some])
  simp (disch := decide) only [punctuation, high_ne hb, if_false, Option.isSome_none]

/-- The second byte of an operator of two is a character. -/
theorem pairToken_next {b : UInt8} {next : Option UInt8} {token : Token} (h : pairToken b next = some token) :
    ∃ d, isAscii d = true ∧ next = some d.toUInt8 := by
  simp only [pairToken] at h
  split_ifs at h with h1 h2 h3 h4 h5 h6
  exacts [⟨_, by decide, h1.2⟩, ⟨_, by decide, h2.2⟩, ⟨_, by decide, h3.2⟩, ⟨_, by decide, h4.2⟩, ⟨_, by decide, h5.2⟩,
    ⟨_, by decide, h6.2⟩]

theorem lexOperator_spec {c : Char} {cs : List Char} {pos : Nat} (h : StandsBefore input pos (c :: cs)) :
    StopsBefore input (lexOperator pos (lead c) (cs.head?.map lead)) (afterOperator c cs) := by
  unfold lexOperator afterOperator
  cases hpair : pairToken (lead c) (cs.head?.map lead) with
  | some token =>
    obtain ⟨d, hd, hnext⟩ := pairToken_next hpair
    exact ⟨_, _, rfl, standsBefore_tail h (pairToken_ascii hpair) hd hd (.inl ((eq_of_head?_lead hd).mp hnext))⟩
  | none =>
    cases hsingle : punctuation (lead c) with
    | some token => exact ⟨_, _, rfl, h.next_ascii (punctuation_ascii hsingle)⟩
    | none => exact ⟨_, rfl⟩

/-! ## One round -/

theorem lexRound_eq {bytes : List UInt8} {b : UInt8} {pos : Nat} (hb : bytes[pos]? = some b) (fuel : Nat) :
    lexRound input bytes fuel pos =
      if isAsciiWhitespace b then .ok (pos + 1, none)
      else if b = '/'.toUInt8 ∧ bytes[pos + 1]? = some '/'.toUInt8 then
        (skipWhile bytes (· ≠ '\n'.toUInt8) fuel pos).map (fun stop => (stop, none))
      else if b = '/'.toUInt8 ∧ bytes[pos + 1]? = some '*'.toUInt8 then
        (lexComment bytes fuel pos).map (fun stop => (stop, none))
      else (lexToken input bytes fuel pos b bytes[pos + 1]?).map (fun stop => (stop.1, some ⟨stop.2, pos⟩)) := by
  simp only [lexRound, byteAt, hb, Option.elim, bind, Except.bind]
  split_ifs
  · rfl
  · cases skipWhile bytes (· ≠ '\n'.toUInt8) fuel pos <;> rfl
  · cases lexComment bytes fuel pos <;> rfl
  · cases lexToken input bytes fuel pos b bytes[pos + 1]? <;> rfl

/-- A character of several bytes outside quotes and comments is refused. -/
theorem lexRound_high {bytes : List UInt8} {b : UInt8} {pos : Nat} (hb : bytes[pos]? = some b) (hhigh : 128 ≤ b.toNat)
    (fuel : Nat) : ∃ e, lexRound input bytes fuel pos = .error (.error e) := by
  refine ⟨⟨"unexpected character: '" ++ String.ofList [byteChar b] ++ "'", pos⟩, ?_⟩
  rw [lexRound_eq hb]
  simp (disch := decide) only [isAsciiWhitespace_high b hhigh, high_ne hhigh, false_and, if_false, Bool.false_eq_true, lexToken,
    isAsciiDigit_high b hhigh, isAsciiAlphabetic_high b hhigh, or_false, lexOperator, pairToken, punctuation, doubleQuote,
    backtick, lexError]
  rfl

theorem afterLexeme_high {c : Char} (hc : isAscii c = false) (cs : List Char) : afterLexeme c cs = none := by
  have hhigh := le_lead hc
  have hne : ∀ d : Char, isAscii d = true → c ≠ d := by
    rintro d hd rfl
    exact Bool.noConfusion (hc.symm.trans hd)
  simp (disch := decide) only [afterLexeme, isAsciiWhitespace_high _ hhigh, hne, false_and, if_false, Bool.false_eq_true,
    isAsciiDigit_high _ hhigh, isAsciiAlphabetic_high _ hhigh, or_false, afterOperator, pairToken, punctuation, high_ne hhigh,
    Option.map_none]

/-- A token of a lexeme that is not quoted. -/
theorem lexToken_plain {c : Char} {cs : List Char} {pos fuel : Nat} (h : StandsBefore input pos (c :: cs))
    (ha : isAscii c = true) (hq : isQuote c = false) (hf : byteLen (c :: cs) ≤ fuel) :
    StopsBefore input (lexToken input (utf8 input) fuel pos (lead c) (cs.head?.map lead))
      (if isAsciiDigit (lead c) ∨ (c = '.' ∧ (cs.head?.map lead).any isAsciiDigit) then afterNumeric c cs
        else if c = '$' then some (afterBytes isWordByte cs)
        else if isAsciiAlphabetic (lead c) ∨ c = '_' then some (afterWord (c :: cs))
        else afterOperator c cs) := by
  have hdollar : lead c = '$'.toUInt8 ↔ c = '$' := lead_eq_iff (by decide)
  have hscore : lead c = '_'.toUInt8 ↔ c = '_' := lead_eq_iff (by decide)
  simp only [isQuote, Bool.or_eq_false_iff, decide_eq_false_iff_not] at hq
  obtain ⟨⟨hsingle, hdouble⟩, hback⟩ := hq
  simp only [lexToken, if_neg hsingle, if_neg hdouble, if_neg hback, lead_dot, hdollar, hscore]
  split
  · exact lexNumeric_spec h hf
  · split
    · exact lexParameter_spec h ha hf
    · split
      · exact lexWord_spec h hf
      · exact lexOperator_spec h

/-- A round of the lexer before a lexeme that is not quoted. -/
theorem lexRound_plain {c : Char} {cs : List Char} {pos fuel : Nat} (h : StandsBefore input pos (c :: cs))
    (hq : isQuote c = false) (hf : byteLen (c :: cs) ≤ fuel) :
    StopsBefore input (lexRound input (utf8 input) fuel pos) (afterLexeme c cs) := by
  cases ha : isAscii c with
  | false =>
    rw [afterLexeme_high ha]
    exact lexRound_high h.lead_eq (le_lead ha) fuel
  | true =>
    have hcs : byteLen cs.tail ≤ fuel := by
      have := byteLen_tail_le cs
      rw [byteLen_cons] at hf
      omega
    have hslash : lead c = '/'.toUInt8 ↔ c = '/' := lead_eq_iff (by decide)
    have hcomment : cs.head?.map lead = some '/'.toUInt8 ↔ cs.head? = some '/' := eq_of_head?_lead (by decide)
    have hblock : cs.head?.map lead = some '*'.toUInt8 ↔ cs.head? = some '*' := eq_of_head?_lead (by decide)
    rw [lexRound_eq h.lead_eq, h.lead_next ha, afterLexeme]
    simp only [hslash, hcomment, hblock]
    split
    · exact ⟨_, _, rfl, h.next_ascii ha⟩
    split
    · rw [skipWhile_eq ne_newline_high h hf]
      exact ⟨_, _, rfl, standsBefore_afterBytes h _⟩
    split
    · next hstar =>
      have hstar' : isAscii '*' = true := by decide
      have hspec := @lexComment_spec input cs.tail pos fuel (standsBefore_tail h ha hstar' hstar' (.inl hstar.2)) hcs
      cases hafter : afterComment cs.tail with
      | some rest =>
        rw [hafter] at hspec
        obtain ⟨stop, hstop, hrest⟩ := hspec
        rw [hstop]
        exact ⟨_, _, rfl, hrest⟩
      | none =>
        rw [hafter] at hspec
        obtain ⟨e, he⟩ := hspec
        rw [he]
        exact ⟨e, rfl⟩
    exact StopsBefore.map (lexToken_plain h ha hq hf) (fun token => some (LexedToken.mk token pos))

end LexerAux

end PgEddy
