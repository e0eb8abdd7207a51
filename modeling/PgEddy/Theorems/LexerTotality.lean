import PgEddy.Lemmas.LexerRuns

/-!
# When the lexer panics

The lexer always stops. It stops with a list of tokens or an error of its own unless it comes to a literal in which a backslash
stands directly before a character of several bytes: there it steps over the first byte of the character and then asks for the
character that starts inside it.
-/

namespace PgEddy

open Text

/-- A result of the lexer that is no panic: tokens or an error. -/
def Tokenises (r : LexM (List LexedToken)) : Prop := (∃ tokens, r = .ok tokens) ∨ ∃ e, r = .error (.error e)

/-- No literal the lexer comes to escapes a character of several bytes. -/
def EscapesOnlyBytes (input : List Char) : Prop := ∀ suf, LexemesReach input suf → ¬EscapesMultibyte suf

namespace LexerTotalityAux

theorem escapesOnlyBytes_nil : EscapesOnlyBytes [] := by
  intro suf hreach
  rcases Relation.ReflTransGen.cases_head hreach with rfl | ⟨rest, hl, -⟩
  · rintro ⟨_, _, _, _, -, heq, -⟩
    cases heq
  · exact absurd hl.byteLen_lt (Nat.not_lt_zero _)

/-- Before a lexeme the condition is the one behind it. -/
theorem escapesOnlyBytes_of_lexeme {suf rest : List Char} (hl : Lexeme suf rest) (hm : ¬EscapesMultibyte suf) :
    EscapesOnlyBytes suf ↔ EscapesOnlyBytes rest := by
  constructor
  · exact fun h t hreach => h t (.head hl hreach)
  · intro h t hreach
    rcases Relation.ReflTransGen.cases_head hreach with rfl | ⟨rest', hl', hreach'⟩
    · exact hm
    · exact h t (hl.unique hl' ▸ hreach')

/-- Where no lexeme is, the lexer comes no further. -/
theorem escapesOnlyBytes_of_refused {suf : List Char} (hl : ∀ rest, ¬Lexeme suf rest) (hm : ¬EscapesMultibyte suf) :
    EscapesOnlyBytes suf := by
  intro t hreach
  rcases Relation.ReflTransGen.cases_head hreach with rfl | ⟨rest, hl', -⟩
  · exact hm
  · exact absurd hl' (hl rest)

/-- The run lemma, by induction on the rounds that are left. -/
theorem lexLoop_spec {input : List Char} : ∀ {fuel pos : Nat} {suf : List Char} (tokens : List LexedToken),
    StandsBefore input pos suf → byteLen suf ≤ fuel →
      lexLoop input (utf8 input) fuel pos tokens ≠ .error .exhausted ∧
        (Tokenises (lexLoop input (utf8 input) fuel pos tokens) ↔ EscapesOnlyBytes suf)
  | fuel, pos, [], tokens, h, _ => by
    have hlt : ¬pos < (utf8 input).length := by
      rw [h.length_eq, byteLen_nil]
      omega
    unfold lexLoop
    rw [if_neg hlt]
    exact ⟨nofun, iff_of_true (.inl ⟨_, rfl⟩) escapesOnlyBytes_nil⟩
  | 0, pos, c :: cs, tokens, _, hf => by
    have := c.utf8Size_pos
    rw [byteLen_cons] at hf
    omega
  | fuel + 1, pos, c :: cs, tokens, h, hf => by
    have hall : byteLen (c :: cs) ≤ (utf8 input).length := by
      rw [h.length_eq]
      omega
    have hlt : pos < (utf8 input).length := by
      have := c.utf8Size_pos
      rw [h.length_eq, byteLen_cons]
      omega
    have hround := roundResult h hall
    rw [lexLoop, if_pos hlt]
    generalize lexRound input (utf8 input) (utf8 input).length pos = r at hround
    cases hround with
    | @lexeme rest stop token hl hm hrest =>
      have hless := hl.byteLen_lt
      rw [escapesOnlyBytes_of_lexeme hl hm]
      exact lexLoop_spec (tokens ++ token.toList) hrest (by omega)
    | refused hl hm => exact ⟨nofun, iff_of_true (.inr ⟨_, rfl⟩) (escapesOnlyBytes_of_refused hl hm)⟩
    | split hm =>
      refine ⟨nofun, iff_of_false ?_ fun honly => honly _ .refl hm⟩
      rintro (⟨_, h⟩ | ⟨_, h⟩) <;> cases h

end LexerTotalityAux

/-- For every query the lexer stops, and it stops with tokens or an error of its own if and only if no literal it comes to escapes a
character of several bytes. -/
theorem lex_total_iff (input : List Char) :
    lex input ≠ .error .exhausted ∧ (Tokenises (lex input) ↔ EscapesOnlyBytes input) := by
  have hlen : byteLen input ≤ (utf8 input).length := Nat.le_of_eq (length_utf8 input).symm
  exact LexerTotalityAux.lexLoop_spec [] (StandsBefore.start input) hlen

/-- A backslash before an accented letter. -/
theorem escaped_letter_panics : ¬∀ input, Tokenises (lex input) := by
  intro h
  have hpanic : lex ['\'', '\\', 'é', '\''] = .error .panic := by decide +kernel
  rcases h ['\'', '\\', 'é', '\''] with ⟨_, ht⟩ | ⟨_, ht⟩
  · cases hpanic.symm.trans ht
  · cases hpanic.symm.trans ht

end PgEddy
