import PgEddy.Lemmas.LexerLiterals

/-!
# Runs of the lexer

Every lexeme takes the lexer further, so the loop goes from one lexeme to the next until the text ends, a lexeme is refused or a
literal leads it into a character.
-/

namespace PgEddy

open Text

variable {input : List Char}

namespace LexerAux

/-! ## Lexemes get shorter -/

theorem byteLen_suffix {as bs : List Char} (h : as <:+ bs) : byteLen as ≤ byteLen bs := by
  obtain ⟨pre, rfl⟩ := h
  rw [byteLen_append]
  exact Nat.le_add_left _ _

theorem afterBytes_suffix (p : UInt8 → Bool) (cs : List Char) : afterBytes p cs <:+ cs := List.dropWhile_suffix _

theorem afterBytes_cons_suffix {p : UInt8 → Bool} {c : Char} (hc : p (lead c) = true) (cs : List Char) :
    afterBytes p (c :: cs) <:+ cs := by
  have htail : afterBytes p (c :: cs) = afterBytes p cs := List.dropWhile_cons_of_pos hc
  exact htail ▸ afterBytes_suffix p cs

theorem afterComment_suffix : ∀ {cs rest : List Char}, afterComment cs = some rest → rest <:+ cs
  | [], _, h => by simp [afterComment] at h
  | [_], _, h => by simp [afterComment] at h
  | c :: d :: cs, rest, h => by
    rw [afterComment] at h
    split at h
    · cases h
      exact ⟨[c, d], rfl⟩
    · exact (afterComment_suffix h).trans (List.suffix_cons _ _)

theorem scanNumber_suffix (cs numStr : List Char) (hasDot hasE : Bool) : (scanNumber cs numStr hasDot hasE).1 <:+ cs := by
  fun_induction scanNumber cs numStr hasDot hasE with
  | case1 | case3 | case8 => exact List.suffix_rfl
  | case2 c cs _ _ _ _ ih | case4 c cs _ _ _ _ _ _ ih => exact ih.trans (List.suffix_cons _ _)
  | case5 c _ _ _ _ _ _ d ds _ ih => exact ih.trans ⟨[c, d], rfl⟩
  | case6 c _ _ _ _ _ _ d ds _ ih => exact ih.trans (List.suffix_cons _ _)
  | case7 c => exact ⟨[c], rfl⟩

/-- The first character of a number is part of it. -/
theorem scanNumber_cons_suffix {c : Char} {cs : List Char}
    (h : isAsciiDigit (lead c) = true ∨ (c = '.' ∧ (cs.head?.map lead).any isAsciiDigit = true)) :
    (scanNumber (c :: cs) [] false false).1 <:+ cs := by
  rw [scanNumber.eq_def]
  by_cases hdigit : isAsciiDigit (lead c) = true
  · simp only [if_pos hdigit]
    exact scanNumber_suffix ..
  · obtain ⟨rfl, hnext⟩ := h.resolve_left hdigit
    have hdot : ¬cs.head? = some '.' := by
      intro hhead
      rw [hhead] at hnext
      exact absurd hnext (by decide)
    simp only [if_neg hdigit, and_self, if_true, if_neg hdot]
    exact scanNumber_suffix ..

theorem afterRadix_suffix {radix : Nat} {isDigit : UInt8 → Bool} {incomplete : String} {cs rest : List Char}
    (h : afterRadix radix isDigit incomplete cs = some rest) : rest <:+ cs := by
  obtain ⟨_, -, rfl⟩ := Option.map_eq_some_iff.mp h
  exact afterBytes_suffix isDigit cs

theorem afterNumeric_suffix {c : Char} {cs rest : List Char}
    (hc : isAsciiDigit (lead c) = true ∨ (c = '.' ∧ (cs.head?.map lead).any isAsciiDigit = true))
    (h : afterNumeric c cs = some rest) : rest <:+ cs := by
  have htail : cs.tail <:+ cs := List.tail_suffix cs
  unfold afterNumeric at h
  split_ifs at h
  · exact (afterRadix_suffix h).trans htail
  · exact (afterRadix_suffix h).trans htail
  · obtain ⟨_, -, rfl⟩ := Option.map_eq_some_iff.mp h
    exact scanNumber_cons_suffix hc

theorem afterWord_suffix {c : Char} (hc : isWordByte (lead c) = true) (cs : List Char) : afterWord (c :: cs) <:+ cs := by
  have hrest := @afterBytes_cons_suffix isWordByte c hc cs
  have hkw := (afterBytes_suffix isAsciiWhitespace (afterBytes isWordByte (c :: cs))).trans hrest
  unfold afterWord
  split
  · dsimp only
    split
    · exact (afterBytes_suffix isAsciiAlphabetic _).trans hkw
    · exact hrest
  · exact hrest

/-- Behind a lexeme that is not quoted there is less than behind its first character. -/
theorem afterLexeme_suffix {c : Char} {cs rest : List Char} (h : afterLexeme c cs = some rest) : rest <:+ cs := by
  have htail : cs.tail <:+ cs := List.tail_suffix cs
  unfold afterLexeme at h
  split_ifs at h with hspace hline hblock hnumber hdollar hword
  · cases h
    exact List.suffix_rfl
  · cases h
    obtain ⟨rfl, -⟩ := hline
    exact afterBytes_cons_suffix (by decide) cs
  · exact (afterComment_suffix h).trans htail
  · exact afterNumeric_suffix hnumber h
  · cases h
    exact afterBytes_suffix _ cs
  · cases h
    refine afterWord_suffix ?_ cs
    simp only [isWordByte, isAsciiAlphanumeric, Bool.or_eq_true, decide_eq_true_eq]
    rcases hword with hword | rfl
    · exact .inl (.inl hword)
    · exact .inr (by decide)
  · unfold afterOperator at h
    split at h
    · cases h
      exact htail
    · obtain ⟨_, -, rfl⟩ := Option.map_eq_some_iff.mp h
      exact List.suffix_rfl

theorem quoted_suffix {c : Char} {cs rest : List Char} (h : Quoted (c :: cs) rest) : rest <:+ cs := by
  cases h with
  | @literal single ps rest _ _ => exact ⟨pieceText ps ++ [quoteOf single], by simp⟩
  | openLiteral | loneLiteral | openName => exact List.nil_suffix
  | @name name rest _ => exact ⟨name ++ [backtickChar], by simp⟩

theorem quoted_ne_nil {rest : List Char} : ¬Quoted [] rest := nofun

end LexerAux

open LexerAux

/-! ## One lexeme -/

theorem Lexeme.byteLen_lt {suf rest : List Char} (h : Lexeme suf rest) : byteLen rest < byteLen suf := by
  obtain ⟨c, cs, rfl, hsuffix⟩ : ∃ c cs, suf = c :: cs ∧ rest <:+ cs := by
    cases h with
    | plain _ hafter => exact ⟨_, _, rfl, afterLexeme_suffix hafter⟩
    | quoted hq =>
      cases suf with
      | nil => exact absurd hq quoted_ne_nil
      | cons c cs => exact ⟨c, cs, rfl, quoted_suffix hq⟩
  have hle := byteLen_suffix hsuffix
  have hpos := c.utf8Size_pos
  rw [byteLen_cons]
  omega

/-- A round takes the lexer behind the lexeme it stands before. -/
theorem Lexeme.lexRound {suf rest : List Char} (hl : Lexeme suf rest) {pos fuel : Nat} (h : StandsBefore input pos suf)
    (hf : byteLen suf ≤ fuel) :
    ∃ stop token, lexRound input (utf8 input) fuel pos = .ok (stop, token) ∧ StandsBefore input stop rest := by
  cases hl with
  | plain hc hafter =>
    have hspec := lexRound_plain h hc hf
    rwa [hafter] at hspec
  | quoted hq =>
    obtain ⟨stop, token, hstop, hrest⟩ := hq.lexRound h hf
    exact ⟨stop, some token, hstop, hrest⟩

/-- Behind a text there is one lexeme at most. -/
theorem Lexeme.unique {suf rest rest' : List Char} (h : Lexeme suf rest) (h' : Lexeme suf rest') : rest = rest' := by
  obtain ⟨stop, token, hstop, hrest⟩ := h.lexRound (StandsBefore.start suf) (Nat.le_refl _)
  obtain ⟨stop', token', hstop', hrest'⟩ := h'.lexRound (StandsBefore.start suf) (Nat.le_refl _)
  cases hstop.symm.trans hstop'
  exact hrest.inj hrest'

theorem EscapesMultibyte.lexRound {suf : List Char} (he : EscapesMultibyte suf) {pos fuel : Nat}
    (h : StandsBefore input pos suf) (hf : byteLen suf ≤ fuel) : lexRound input (utf8 input) fuel pos = .error .panic := by
  obtain ⟨single, ps, c, rest, hps, rfl, hc⟩ := he
  exact lexRound_split hps hc h hf

/-- What a round comes to: it takes a lexeme, or refuses one, or is led into a character. -/
inductive RoundResult (input : List Char) (suf : List Char) : LexM (Nat × Option LexedToken) → Prop where
  | lexeme {rest : List Char} {stop : Nat} {token : Option LexedToken} : Lexeme suf rest → ¬EscapesMultibyte suf →
      StandsBefore input stop rest → RoundResult input suf (.ok (stop, token))
  | refused {e : LexError} : (∀ rest, ¬Lexeme suf rest) → ¬EscapesMultibyte suf → RoundResult input suf (.error (.error e))
  | split : EscapesMultibyte suf → RoundResult input suf (.error .panic)

theorem roundResult {c : Char} {cs : List Char} {pos fuel : Nat} (h : StandsBefore input pos (c :: cs))
    (hf : byteLen (c :: cs) ≤ fuel) : RoundResult input (c :: cs) (lexRound input (utf8 input) fuel pos) := by
  have hlexeme : ∀ rest, Lexeme (c :: cs) rest → RoundResult input (c :: cs) (lexRound input (utf8 input) fuel pos) := by
    intro rest hl
    obtain ⟨stop, token, hstop, hrest⟩ := hl.lexRound h hf
    rw [hstop]
    refine .lexeme hl (fun hm => ?_) hrest
    have hpanic := hm.lexRound h hf
    rw [hstop] at hpanic
    cases hpanic
  have hrefused : ∀ e, lexRound input (utf8 input) fuel pos = .error (.error e) →
      RoundResult input (c :: cs) (lexRound input (utf8 input) fuel pos) := by
    intro e he
    rw [he]
    refine .refused (fun rest hl => ?_) fun hm => ?_
    · obtain ⟨stop, token, hstop, -⟩ := hl.lexRound h hf
      rw [he] at hstop
      cases hstop
    · have hpanic := hm.lexRound h hf
      rw [he] at hpanic
      cases hpanic
  cases hq : isQuote c with
  | false =>
    have hspec := lexRound_plain h hq hf
    cases hafter : afterLexeme c cs with
    | some rest => exact hlexeme rest (.plain hq hafter)
    | none =>
      rw [hafter] at hspec
      obtain ⟨e, he⟩ := hspec
      exact hrefused e he
  | true =>
    rcases quoted_cases hq h hf with ⟨rest, hquoted⟩ | ⟨e, he⟩ | hm
    · exact hlexeme rest (.quoted hquoted)
    · exact hrefused e he
    · rw [hm.lexRound h hf]
      exact .split hm

end PgEddy
