import PgEddy.Lemmas.LexerRuns

/-!
# String literals

A string that is written as a literal is read back, however its characters are escaped. What is accepted, though, is more than
what is closed: the end of the query closes every quote, and a code may be written with a plus.
-/

namespace PgEddy

open Text

/-- A piece of a string as it is written: escaped where it has to be, and with all four digits of a code. -/
def LiteralPiece.Written (single : Bool) (p : LiteralPiece) : Prop := p.Valid single ∧ p.Escaped ∧ p.Exact

/-- A string may be written as a text between two quotes. -/
def Renders (single : Bool) (s : String) (text : List Char) : Prop :=
  ∃ ps, (∀ p ∈ ps, p.Written single) ∧ pieceText ps = text ∧ String.ofList (pieceValue ps) = s

/-- A quoted lexeme with its closing quote, and with four digits behind each `\u`. -/
def ClosedQuoted (suf : List Char) : Prop :=
  (∃ single ps rest, (∀ p ∈ ps, LiteralPiece.Valid single p ∧ p.Exact) ∧ (single = true → rest.head? ≠ some '\'') ∧
    suf = quoteOf single :: (pieceText ps ++ quoteOf single :: rest)) ∨
  ∃ name rest, backtickChar ∉ name ∧ suf = backtickChar :: (name ++ backtickChar :: rest)

/-- A quoted lexeme that the end of the query ends. -/
def OpenQuoted (suf : List Char) : Prop :=
  (∃ single ps, (∀ p ∈ ps, LiteralPiece.Valid single p) ∧
    (suf = quoteOf single :: pieceText ps ∨ suf = quoteOf single :: (pieceText ps ++ ['\\']))) ∨
  ∃ name, backtickChar ∉ name ∧ suf = backtickChar :: name

/-- A literal with a plus behind a `\u`. -/
def SignedCode (suf : List Char) : Prop :=
  ∃ single ps rest, (∀ p ∈ ps, LiteralPiece.Valid single p) ∧ (single = true → rest.head? ≠ some '\'') ∧
    suf = quoteOf single :: (pieceText ps ++ quoteOf single :: rest) ∧ ∃ hs v, LiteralPiece.unicode ('+' :: hs) v ∈ ps

/-- The positions the lexer comes to. -/
def LexerComesTo (input : List Char) : Nat → Prop :=
  Relation.ReflTransGen (fun pos stop => ∃ token, lexRound input (utf8 input) (utf8 input).length pos = .ok (stop, token)) 0

/-- What the lexer owes a query in which it comes to literals. A string that is written at its start is the first token, if there
are tokens, and there are if nothing follows; and a quoted lexeme is a token only if it is closed, with four digits in each code. -/
structure ReadsLiterals (input : List Char) : Prop where
  written : ∀ single s text rest, Renders single s text → (single = true → rest.head? ≠ some '\'') →
    input = quoteOf single :: (text ++ quoteOf single :: rest) →
      (∀ tokens, lex input = .ok tokens → tokens.head? = some ⟨.stringLit s, 0⟩) ∧ (rest = [] → ∃ tokens, lex input = .ok tokens)
  closed : ∀ pos c cs, LexerComesTo input pos → StandsBefore input pos (c :: cs) → isQuote c = true →
    (∃ stop token, lexRound input (utf8 input) (utf8 input).length pos = .ok (stop, some token)) → ClosedQuoted (c :: cs)

/-- Every string may be written with either quote. -/
theorem exists_renders (single : Bool) (s : String) : ∃ text, Renders single s text := by
  have hchar : ∀ c : Char, ∃ p : LiteralPiece, p.Written single ∧ p.value = [c] := by
    intro c
    by_cases hquote : c = quoteOf single
    · refine ⟨.escape c c, ⟨?_, trivial, trivial⟩, rfl⟩
      rw [hquote]
      cases single with
      | true => exact ⟨by decide, by decide⟩
      | false => exact ⟨by decide, by decide⟩
    by_cases hback : c = '\\'
    · refine ⟨.escape c c, ⟨?_, trivial, trivial⟩, rfl⟩
      rw [hback]
      cases single with
      | true => exact ⟨by decide, by decide⟩
      | false => exact ⟨by decide, by decide⟩
    · exact ⟨.plain c, ⟨⟨hquote, hback⟩, trivial, trivial⟩, rfl⟩
  have hall : ∀ cs : List Char, ∃ ps : List LiteralPiece, (∀ p ∈ ps, p.Written single) ∧ pieceValue ps = cs := by
    intro cs
    induction cs with
    | nil => exact ⟨[], by simp, rfl⟩
    | cons c cs ih =>
      obtain ⟨ps, hps, hvalue⟩ := ih
      obtain ⟨p, hp, hc⟩ := hchar c
      exact ⟨p :: ps, List.forall_mem_cons.mpr ⟨hp, hps⟩, by rw [pieceValue, List.flatMap_cons, hc, ← pieceValue, hvalue]; rfl⟩
  obtain ⟨ps, hps, hvalue⟩ := hall s.toList
  exact ⟨pieceText ps, ps, hps, rfl, by rw [hvalue, String.ofList_toList]⟩

namespace StringLiteralsAux

open LexerAux

/-! ## A literal is read in one way -/

theorem quoteOf_inj {single single' : Bool} (h : quoteOf single = quoteOf single') : single = single' := by
  cases single <;> cases single' <;> first | rfl | exact absurd h (by decide)

theorem quoteOf_ne_backslash (single : Bool) : quoteOf single ≠ '\\' := by cases single <;> decide

theorem quoteOf_ne_backtick (single : Bool) : quoteOf single ≠ backtickChar := by cases single <;> decide

theorem not_escape_u {single : Bool} {v : Char} : simpleEscape single 'u'.toUInt8 ≠ some v := by
  have hnone := simpleEscape_u single
  rw [lead_of_isAscii (by decide)] at hnone
  rw [hnone]
  simp

/-- No piece starts where the pieces end. -/
theorem ending_not_piece {single : Bool} {p : LiteralPiece} (hp : p.Valid single) {r : List Char} (h : Ending single (p.text ++ r)) :
    False := by
  generalize ht : p.text ++ r = t at h
  have hback := quoteOf_ne_backslash single
  rcases piece_cases hp with ⟨c, rfl, hquote, hc⟩ | ⟨rfl, rfl⟩ | ⟨c, text, htext⟩
  · cases h with
    | closed => exact hquote (List.cons.inj ht).1
    | open_ => cases ht
    | lone | refused | split => exact hc (List.cons.inj ht).1
  · cases h with
    | closed rest hrest =>
      refine hrest rfl ?_
      rw [← (List.cons.inj ht).2]
      rfl
    | open_ => cases ht
    | lone | refused | split => exact absurd (List.cons.inj ht).1 (by decide)
  · rw [htext] at ht
    cases h with
    | closed => exact hback (List.cons.inj ht).1.symm
    | open_ => cases ht
    | lone => cases ht
    | refused hs hv =>
      obtain ⟨rfl, hhs⟩ := List.cons.inj (List.cons.inj ht).2
      cases p with
      | plain | doubled => cases htext
      | escape d v =>
        cases htext
        exact not_escape_u hp.2
      | unicode cs v =>
        cases htext
        have htake : hs.take 4 = text := by
          rw [← hhs, ← hp.1]
          exact List.take_left
        rw [← htake] at hp
        exact hv v hp
      | odd d =>
        cases htext
        exact hp.2.2 rfl
    | split d rest hd =>
      obtain ⟨rfl, -⟩ := List.cons.inj (List.cons.inj ht).2
      have ha : isAscii c = true := by
        cases p with
        | plain | doubled => cases htext
        | escape | odd =>
          cases htext
          exact hp.1
        | unicode =>
          cases htext
          decide
      rw [ha] at hd
      cases hd

/-- An escape is one piece only. -/
theorem escape_inj {single : Bool} {p p' : LiteralPiece} (hp : p.Valid single) (hp' : p'.Valid single) {c : Char} {t t' a b : List Char}
    (ht : p.text = '\\' :: c :: t) (ht' : p'.text = '\\' :: c :: t') (h : t ++ a = t' ++ b) : p = p' ∧ a = b := by
  cases p with
  | plain | doubled => cases ht
  | escape d v =>
    cases ht
    cases p' with
    | plain | doubled => cases ht'
    | escape d' v' =>
      cases ht'
      exact ⟨by rw [Option.some.inj (hp.2.symm.trans hp'.2)], h⟩
    | unicode =>
      cases ht'
      exact absurd hp.2 not_escape_u
    | odd =>
      cases ht'
      cases hp.2.symm.trans hp'.2.1
  | unicode hs v =>
    cases ht
    cases p' with
    | plain | doubled => cases ht'
    | escape =>
      cases ht'
      exact absurd hp'.2 not_escape_u
    | unicode hs' v' =>
      cases ht'
      obtain ⟨rfl, rfl⟩ := List.append_inj h (hp.1.trans hp'.1.symm)
      exact ⟨by rw [Option.some.inj (hp.2.symm.trans hp'.2)], rfl⟩
    | odd =>
      cases ht'
      exact absurd rfl hp'.2.2
  | odd d =>
    cases ht
    cases p' with
    | plain | doubled => cases ht'
    | escape =>
      cases ht'
      cases hp.2.1.symm.trans hp'.2
    | unicode =>
      cases ht'
      exact absurd rfl hp.2.2
    | odd =>
      cases ht'
      exact ⟨rfl, h⟩

/-- The first piece of a text is one only. -/
theorem piece_inj {single : Bool} {p p' : LiteralPiece} (hp : p.Valid single) (hp' : p'.Valid single) {a b : List Char}
    (h : p.text ++ a = p'.text ++ b) : p = p' ∧ a = b := by
  rcases piece_cases hp with ⟨c, rfl, hquote, hc⟩ | ⟨rfl, rfl⟩ | ⟨c, t, ht⟩
  · rcases piece_cases hp' with ⟨c', rfl, -, -⟩ | ⟨rfl, rfl⟩ | ⟨c', t', ht'⟩
    · obtain ⟨rfl, rfl⟩ := List.cons.inj h
      exact ⟨rfl, rfl⟩
    · exact absurd (List.cons.inj h).1 hquote
    · rw [ht'] at h
      exact absurd (List.cons.inj h).1 hc
  · rcases piece_cases hp' with ⟨c', rfl, hquote', -⟩ | ⟨rfl, -⟩ | ⟨c', t', ht'⟩
    · exact absurd (List.cons.inj h).1.symm hquote'
    · exact ⟨rfl, List.append_cancel_left h⟩
    · rw [ht'] at h
      exact absurd (List.cons.inj h).1 (by decide)
  · rw [ht] at h
    rcases piece_cases hp' with ⟨c', rfl, -, hc'⟩ | ⟨rfl, -⟩ | ⟨c', t', ht'⟩
    · exact absurd (List.cons.inj h).1.symm hc'
    · exact absurd (List.cons.inj h).1 (by decide)
    · rw [ht'] at h
      obtain ⟨rfl, hrest⟩ := List.cons.inj (List.cons.inj h).2
      exact escape_inj hp hp' ht ht' hrest

/-- A text is pieces and an ending in one way only. -/
theorem pieces_unique {single : Bool} {t t' : List Char} (ht : Ending single t) (ht' : Ending single t') :
    ∀ {ps ps' : List LiteralPiece}, (∀ p ∈ ps, p.Valid single) → (∀ p ∈ ps', p.Valid single) →
      pieceText ps ++ t = pieceText ps' ++ t' → ps = ps' ∧ t = t'
  | [], [], _, _, h => ⟨rfl, h⟩
  | [], p :: ps', _, hps', h => by
    rw [pieceText, List.flatMap_nil, List.nil_append, pieceText, List.flatMap_cons, List.append_assoc] at h
    exact (ending_not_piece (hps' p List.mem_cons_self) (h ▸ ht)).elim
  | p :: ps, [], hps, _, h => by
    rw [pieceText, List.flatMap_cons, List.append_assoc, pieceText, List.flatMap_nil, List.nil_append] at h
    exact (ending_not_piece (hps p List.mem_cons_self) (h ▸ ht')).elim
  | p :: ps, p' :: ps', hps, hps', h => by
    rw [pieceText, List.flatMap_cons, List.append_assoc, pieceText, List.flatMap_cons, List.append_assoc] at h
    obtain ⟨rfl, hrest⟩ := piece_inj (hps p List.mem_cons_self) (hps' p' List.mem_cons_self) h
    obtain ⟨rfl, rfl⟩ := pieces_unique ht ht' (fun q hq => hps q (List.mem_cons_of_mem _ hq))
      (fun q hq => hps' q (List.mem_cons_of_mem _ hq)) hrest
    exact ⟨rfl, rfl⟩

/-! ## What is accepted -/

theorem isHexChar_of_toDigit {c : Char} (h : (toDigit 16 c).isSome = true) : isHexChar c = true := by
  obtain ⟨d, hd⟩ := Option.isSome_iff_exists.mp h
  have ha := isAscii_of_toDigit hd
  have hbyte := toNat_lead_of_isAscii ha
  rw [lead_of_isAscii ha] at hbyte
  obtain ⟨hvalue, hlt⟩ := Option.filter_eq_some_iff.mp hd
  have hlt : d < 16 := of_decide_eq_true hlt
  rw [isHexChar, ha, Bool.true_and]
  simp only [isAsciiHexdigit, isAsciiDigit, UInt8.le_iff_toNat_le, hbyte, Bool.or_eq_true, Bool.and_eq_true, decide_eq_true_eq,
    UInt8.reduceToNat]
  split_ifs at hvalue
  all_goals
    have := Option.some.inj hvalue
    omega

/-- A valid code that has not four digits has a plus. -/
theorem signed_of_not_exact {single : Bool} {p : LiteralPiece} (hp : p.Valid single) (h : ¬p.Exact) :
    ∃ hs v, p = .unicode ('+' :: hs) v := by
  cases p with
  | plain | doubled | escape | odd => exact absurd trivial h
  | unicode hs v =>
    obtain ⟨hlen, hcode⟩ := hp
    obtain ⟨n, hn, -⟩ := Option.bind_eq_some_iff.mp hcode
    obtain ⟨-, hall | ⟨cs, rfl, -⟩⟩ := digits_of_fromStrRadix hn
    · exact absurd ⟨hlen, List.all_eq_true.mpr fun c hc => isHexChar_of_toDigit (hall c hc)⟩ h
    · exact ⟨cs, v, rfl⟩

/-- A lexeme with a plus in a code is not exact. -/
theorem plus_not_exact {hs : List Char} {v : Char} : ¬(LiteralPiece.unicode ('+' :: hs) v).Exact := by
  rintro ⟨-, h⟩
  rw [List.all_cons, Bool.and_eq_true] at h
  exact absurd h.1 (by decide)

theorem not_open_of_closed {suf : List Char} (h : ClosedQuoted suf) : ¬OpenQuoted suf := by
  rcases h with ⟨single, ps, rest, hps, hrest, rfl⟩ | ⟨name, rest, hn, rfl⟩
  · have hvalid := fun p hp => (hps p hp).1
    rintro (⟨single', ps', hps', heq | heq⟩ | ⟨name, -, heq⟩)
    · obtain ⟨hquote, hbody⟩ := List.cons.inj heq
      obtain rfl := quoteOf_inj hquote
      rw [← List.append_nil (pieceText ps')] at hbody
      cases (pieces_unique (.closed rest hrest) .open_ hvalid hps' hbody).2
    · obtain ⟨hquote, hbody⟩ := List.cons.inj heq
      obtain rfl := quoteOf_inj hquote
      exact quoteOf_ne_backslash single (List.cons.inj (pieces_unique (.closed rest hrest) .lone hvalid hps' hbody).2).1
    · exact quoteOf_ne_backtick single (List.cons.inj heq).1
  · rintro (⟨single', ps', -, heq | heq⟩ | ⟨name', hn', heq⟩)
    · exact quoteOf_ne_backtick single' (List.cons.inj heq).1.symm
    · exact quoteOf_ne_backtick single' (List.cons.inj heq).1.symm
    · rw [← (List.cons.inj heq).2] at hn'
      exact hn' (List.mem_append_right _ List.mem_cons_self)

theorem not_signed_of_closed {suf : List Char} (h : ClosedQuoted suf) : ¬SignedCode suf := by
  rintro ⟨single', ps', rest', hps', hrest', heq, hs, v, hmem⟩
  rcases h with ⟨single, ps, rest, hps, hrest, rfl⟩ | ⟨name, rest, hn, rfl⟩
  · obtain ⟨hquote, hbody⟩ := List.cons.inj heq
    obtain rfl := quoteOf_inj hquote
    obtain ⟨rfl, -⟩ := pieces_unique (.closed rest hrest) (.closed rest' hrest') (fun p hp => (hps p hp).1) hps' hbody
    exact plus_not_exact (hps _ hmem).2
  · exact quoteOf_ne_backtick single' (List.cons.inj heq).1.symm

/-- A quoted lexeme is closed if it is neither open nor signed. -/
theorem closed_of_quoted {suf rest : List Char} (hq : Quoted suf rest) (hopen : ¬OpenQuoted suf) (hsigned : ¬SignedCode suf) :
    ClosedQuoted suf := by
  cases hq with
  | @literal single ps rest hps hrest =>
    refine .inl ⟨single, ps, rest, fun p hp => ⟨hps p hp, ?_⟩, hrest, rfl⟩
    by_contra hexact
    obtain ⟨hs, v, rfl⟩ := signed_of_not_exact (hps p hp) hexact
    exact hsigned ⟨single, ps, rest, hps, hrest, rfl, hs, v, hp⟩
  | openLiteral hps => exact absurd (.inl ⟨_, _, hps, .inl rfl⟩) hopen
  | loneLiteral hps => exact absurd (.inl ⟨_, _, hps, .inr rfl⟩) hopen
  | name hn => exact .inr ⟨_, _, hn, rfl⟩
  | openName hn => exact absurd (.inr ⟨_, hn, rfl⟩) hopen

theorem quoted_of_open {suf : List Char} (h : OpenQuoted suf) : Quoted suf [] := by
  rcases h with ⟨single, ps, hps, rfl | rfl⟩ | ⟨name, hn, rfl⟩
  · exact .openLiteral hps
  · exact .loneLiteral hps
  · exact .openName hn

theorem quoted_of_signed {suf : List Char} (h : SignedCode suf) : ∃ rest, Quoted suf rest := by
  obtain ⟨single, ps, rest, hps, hrest, rfl, -⟩ := h
  exact ⟨rest, .literal hps hrest⟩

/-- A quoted lexeme is a token only if it is closed: exactly if it is neither open nor signed. -/
theorem accepted_closed_iff {input : List Char} {pos fuel : Nat} {c : Char} {cs : List Char} (hc : isQuote c = true)
    (h : StandsBefore input pos (c :: cs)) (hf : byteLen (c :: cs) ≤ fuel) :
    ((∃ stop token, lexRound input (utf8 input) fuel pos = .ok (stop, some token)) → ClosedQuoted (c :: cs)) ↔
      ¬OpenQuoted (c :: cs) ∧ ¬SignedCode (c :: cs) := by
  have haccepted : ∀ rest, Quoted (c :: cs) rest →
      ∃ stop token, lexRound input (utf8 input) fuel pos = .ok (stop, some token) := by
    intro rest hq
    obtain ⟨stop, token, hstop, -⟩ := hq.lexRound h hf
    exact ⟨stop, token, hstop⟩
  constructor
  · intro hclosed
    constructor
    · intro hopen
      exact not_open_of_closed (hclosed (haccepted _ (quoted_of_open hopen))) hopen
    · intro hsigned
      obtain ⟨rest, hq⟩ := quoted_of_signed hsigned
      exact not_signed_of_closed (hclosed (haccepted _ hq)) hsigned
  · rintro ⟨hopen, hsigned⟩ ⟨stop, token, hround⟩
    rcases quoted_cases hc h hf with ⟨rest, hq⟩ | ⟨e, he⟩ | hm
    · exact closed_of_quoted hq hopen hsigned
    · rw [hround] at he
      cases he
    · rw [hm.lexRound h hf] at hround
      cases hround

/-! ## What is written -/

/-- The tokens so far are the first ones. -/
theorem prefix_lexLoop {input : List Char} {bytes : List UInt8} : ∀ {fuel pos : Nat} {tokens all : List LexedToken},
    lexLoop input bytes fuel pos tokens = .ok all → tokens <+: all
  | fuel, pos, tokens, all, h => by
    unfold lexLoop at h
    split at h
    · cases fuel with
      | zero => cases h
      | succ fuel =>
        simp only at h
        split at h
        · cases h
        · exact (List.prefix_append _ _).trans (prefix_lexLoop h)
    · cases h
      exact List.prefix_append _ _

theorem written_is_read {single : Bool} {s : String} {text rest : List Char} (hr : Renders single s text)
    (hrest : single = true → rest.head? ≠ some '\'') :
    let input := quoteOf single :: (text ++ quoteOf single :: rest)
    (∀ tokens, lex input = .ok tokens → tokens.head? = some ⟨.stringLit s, 0⟩) ∧
      (rest = [] → ∃ tokens, lex input = .ok tokens) := by
  obtain ⟨ps, hps, rfl, rfl⟩ := hr
  intro input
  have hlen : byteLen input ≤ (utf8 input).length := Nat.le_of_eq (length_utf8 input).symm
  obtain ⟨stop, hstop, hnext⟩ := lexRound_closed (fun p hp => (hps p hp).1) hrest (StandsBefore.start input) hlen
  have hpos : 0 < (utf8 input).length := by
    have := (quoteOf single).utf8Size_pos
    rw [length_utf8, byteLen_cons]
    omega
  obtain ⟨n, hn⟩ : ∃ n, (utf8 input).length = n + 1 := ⟨(utf8 input).length - 1, by omega⟩
  have hlex : lex input = lexLoop input (utf8 input) n stop [⟨.stringLit (String.ofList (pieceValue ps)), 0⟩] := by
    rw [lex, show lexLoop input (utf8 input) (utf8 input).length 0 [] = lexLoop input (utf8 input) (n + 1) 0 [] by rw [hn],
      lexLoop, if_pos hpos, hstop]
    rfl
  constructor
  · intro tokens htokens
    rw [hlex] at htokens
    obtain ⟨more, rfl⟩ := prefix_lexLoop htokens
    rfl
  · rintro rfl
    have hend : ¬stop < (utf8 input).length := by
      rw [hnext.length_eq, byteLen_nil]
      omega
    rw [hlex]
    unfold lexLoop
    rw [if_neg hend]
    exact ⟨_, rfl⟩

/-! ## The positions the lexer comes to -/

theorem reach_of_comesTo {input : List Char} {pos : Nat} (h : LexerComesTo input pos) :
    ∃ suf, StandsBefore input pos suf ∧ LexemesReach input suf := by
  induction h with
  | refl => exact ⟨input, StandsBefore.start input, .refl⟩
  | tail _ hround ih =>
    obtain ⟨token, hround⟩ := hround
    obtain ⟨suf, hs, hreach⟩ := ih
    cases suf with
    | nil =>
      simp only [lexRound, byteAt, hs.eq_none, Option.elim, bind, Except.bind] at hround
      cases hround
    | cons c cs =>
      have hresult := roundResult hs hs.byteLen_le
      rw [hround] at hresult
      cases hresult with
      | lexeme hl _ hrest => exact ⟨_, hrest, hreach.tail hl⟩

theorem comesTo_of_reach {input suf : List Char} (h : LexemesReach input suf) :
    ∃ pos, StandsBefore input pos suf ∧ LexerComesTo input pos := by
  induction h with
  | refl => exact ⟨0, StandsBefore.start input, .refl⟩
  | tail _ hl ih =>
    obtain ⟨pos, hs, hcomes⟩ := ih
    obtain ⟨stop, token, hstop, hrest⟩ := hl.lexRound hs hs.byteLen_le
    exact ⟨stop, hrest, hcomes.tail ⟨token, hstop⟩⟩

theorem open_or_signed_isQuote {c : Char} {cs : List Char} (h : OpenQuoted (c :: cs) ∨ SignedCode (c :: cs)) :
    isQuote c = true := by
  have hliteral : ∀ single, isQuote (quoteOf single) = true := fun single => by cases single <;> decide
  rcases h with (⟨single, _, _, heq | heq⟩ | ⟨_, _, heq⟩) | ⟨single, _, _, _, _, heq, _⟩
  · exact (List.cons.inj heq).1 ▸ hliteral single
  · exact (List.cons.inj heq).1 ▸ hliteral single
  · rw [(List.cons.inj heq).1]
    decide
  · exact (List.cons.inj heq).1 ▸ hliteral single

theorem not_open_or_signed_nil : ¬(OpenQuoted [] ∨ SignedCode []) := by
  rintro ((⟨_, _, _, heq | heq⟩ | ⟨_, _, heq⟩) | ⟨_, _, _, _, _, heq, _⟩) <;> cases heq

end StringLiteralsAux

open StringLiteralsAux in
/-- For every query the lexer reads its literals as it owes it if and only if none of the quoted lexemes it comes to runs to the end
of the query, and none has a plus behind a `\u`. -/
theorem reads_literals_iff (input : List Char) :
    ReadsLiterals input ↔ ∀ suf, LexemesReach input suf → ¬OpenQuoted suf ∧ ¬SignedCode suf := by
  constructor
  · intro h suf hreach
    obtain ⟨pos, hs, hcomes⟩ := comesTo_of_reach hreach
    rw [← not_or]
    intro hbad
    cases suf with
    | nil => exact not_open_or_signed_nil hbad
    | cons c cs =>
      have hc := open_or_signed_isQuote hbad
      exact not_or.mpr ((accepted_closed_iff hc hs hs.byteLen_le).mp (h.closed pos c cs hcomes hs hc)) hbad
  · intro hcond
    refine ⟨fun single s text rest hr hrest heq => heq ▸ written_is_read hr hrest, fun pos c cs hcomes hs hc => ?_⟩
    obtain ⟨suf, hs', hreach⟩ := reach_of_comesTo hcomes
    obtain rfl := hs'.inj hs
    exact (accepted_closed_iff hc hs hs.byteLen_le).mpr (hcond _ hreach)

/-- A quote that nothing closes. -/
theorem open_literal_is_read : ¬∀ input, ReadsLiterals input := by
  intro h
  have hround : lexRound ['\'', 'a'] (utf8 ['\'', 'a']) (utf8 ['\'', 'a']).length 0 = .ok (2, some ⟨.stringLit "a", 0⟩) := by
    decide +kernel
  have hclosed := (h ['\'', 'a']).closed 0 '\'' ['a'] .refl (StandsBefore.start _) (by decide) ⟨_, _, hround⟩
  refine StringLiteralsAux.not_open_of_closed hclosed (.inl ⟨true, [.plain 'a'], ?_, .inl rfl⟩)
  intro p hp
  rw [List.mem_singleton.mp hp]
  exact ⟨by decide, by decide⟩

end PgEddy
