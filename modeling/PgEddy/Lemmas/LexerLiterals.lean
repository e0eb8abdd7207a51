import PgEddy.Lemmas.LexerSteps

/-!
# What the lexer does with a quoted lexeme

The loop of a literal takes its pieces one by one, and what it does behind the last of them is decided by how they end. Every
text is some pieces and an ending, in one way only.
-/

namespace PgEddy

open Text

namespace LexerAux

variable {input : List Char}

/-! ## Codes -/

theorem isAscii_of_toDigit {radix d : Nat} {c : Char} (h : toDigit radix c = some d) : isAscii c = true := by
  obtain ⟨h, -⟩ := Option.filter_eq_some_iff.mp h
  refine decide_eq_true ?_
  split_ifs at h
  all_goals omega

/-- The fold over digits has a result only if each character is one. -/
theorem digits_of_fold {radix : Nat} (cs : List Char) : ∀ {n : Option Nat} {m : Nat},
    cs.foldl (fun n c => n.bind fun n => (toDigit radix c).map fun d => n * radix + d) n = some m →
      n.isSome = true ∧ ∀ c ∈ cs, (toDigit radix c).isSome = true := by
  induction cs with
  | nil =>
    intro n m h
    exact ⟨by rw [show n = some m from h]; rfl, by simp⟩
  | cons c cs ih =>
    intro n m h
    obtain ⟨hsome, hrest⟩ := ih h
    obtain ⟨k, hk⟩ := Option.isSome_iff_exists.mp hsome
    obtain ⟨n', hn, hmap⟩ := Option.bind_eq_some_iff.mp hk
    obtain ⟨d, hd, -⟩ := Option.map_eq_some_iff.mp hmap
    refine ⟨by rw [hn]; rfl, fun a ha => ?_⟩
    rcases List.mem_cons.mp ha with rfl | ha
    · rw [hd]; rfl
    · exact hrest a ha

/-- A number is written in digits, behind a plus or not. -/
theorem digits_of_fromStrRadix {width radix n : Nat} {hs : List Char} (h : fromStrRadix width radix hs = some n) :
    hs ≠ [] ∧ ((∀ c ∈ hs, (toDigit radix c).isSome = true) ∨
      ∃ cs, hs = '+' :: cs ∧ ∀ c ∈ cs, (toDigit radix c).isSome = true) := by
  have hfold : ∀ digits : List Char, (if digits = [] then none else
      (digits.foldl (fun n c => n.bind fun n => (toDigit radix c).map fun d => n * radix + d) (some 0)).filter (· < 2 ^ width)) =
        some n → digits ≠ [] ∧ ∀ c ∈ digits, (toDigit radix c).isSome = true := by
    intro digits h
    split at h
    · cases h
    · next hne => exact ⟨hne, (digits_of_fold _ (Option.filter_eq_some_iff.mp h).1).2⟩
  unfold fromStrRadix at h
  obtain ⟨hne, hdigits⟩ := hfold _ h
  split at hdigits
  · exact ⟨by simp, .inr ⟨_, rfl, hdigits⟩⟩
  · next hother =>
    refine ⟨fun hnil => hne ?_, .inl hdigits⟩
    rw [hnil]

theorem isAscii_of_fromStrRadix {width radix n : Nat} {hs : List Char} (h : fromStrRadix width radix hs = some n) :
    ∀ c ∈ hs, isAscii c = true := by
  have hdigit : ∀ {c : Char}, (toDigit radix c).isSome = true → isAscii c = true := by
    intro c hc
    obtain ⟨d, hd⟩ := Option.isSome_iff_exists.mp hc
    exact isAscii_of_toDigit hd
  obtain ⟨-, hall | ⟨cs, rfl, hall⟩⟩ := digits_of_fromStrRadix h
  · exact fun c hc => hdigit (hall c hc)
  · intro c hc
    rcases List.mem_cons.mp hc with rfl | hc
    · decide
    · exact hdigit (hall c hc)

/-- Bytes below 128 are those of one text. -/
theorem prefix_of_utf8 : ∀ {t hs : List Char}, (∀ c ∈ t, isAscii c = true) → utf8 t <+: utf8 hs → t <+: hs
  | [], hs, _, _ => List.nil_prefix
  | c :: t, [], ha, h => by
    rw [utf8_cons, encodeChar_of_isAscii (ha c List.mem_cons_self)] at h
    simp at h
  | c :: t, d :: hs, ha, h => by
    have hc := ha c List.mem_cons_self
    obtain ⟨bs, hbs⟩ := encodeChar_eq_cons d
    rw [utf8_cons, utf8_cons, encodeChar_of_isAscii hc, hbs, List.singleton_append, List.cons_append,
      List.cons_prefix_cons] at h
    obtain rfl := (lead_eq_iff hc).mp h.1.symm
    have hnil : bs = [] := by
      rw [encodeChar_of_isAscii hc] at hbs
      exact (List.cons.inj hbs).2.symm
    rw [hnil, List.nil_append] at h
    exact List.cons_prefix_cons.mpr ⟨rfl, prefix_of_utf8 (fun a h' => ha a (List.mem_cons_of_mem _ h')) h.2⟩

theorem length_le_byteLen (cs : List Char) : cs.length ≤ byteLen cs := by
  induction cs with
  | nil => exact Nat.le_refl _
  | cons c cs ih =>
    have := c.utf8Size_pos
    rw [byteLen_cons, List.length_cons]
    omega

theorem byteLen_of_isAscii {cs : List Char} (h : ∀ c ∈ cs, isAscii c = true) : byteLen cs = cs.length := by
  induction cs with
  | nil => rfl
  | cons c cs ih =>
    rw [byteLen_cons, utf8Size_of_isAscii (h c List.mem_cons_self), ih fun a ha => h a (List.mem_cons_of_mem _ ha),
      List.length_cons, Nat.add_comm]

/-- The characters behind `\u` are read as they stand in the text. -/
theorem lexUnicodeEscape_ok {single : Bool} {hs : List Char} {v : Char} {start pos : Nat} (h : StandsBefore input pos hs)
    (hv : (LiteralPiece.unicode (hs.take 4) v).Valid single) : lexUnicodeEscape (utf8 input) start pos = .ok (pos + 3, v) := by
  obtain ⟨hlen, hcode⟩ := hv
  obtain ⟨n, hn, hchar⟩ := Option.bind_eq_some_iff.mp hcode
  have hascii := isAscii_of_fromStrRadix hn
  have hsplit : hs = hs.take 4 ++ hs.drop 4 := (List.take_append_drop 4 hs).symm
  have hbytes : ((utf8 input).drop pos).take 4 = utf8 (hs.take 4) := by
    obtain ⟨pre, rfl, rfl⟩ := h
    have hfour : (utf8 (hs.take 4)).length = 4 := by rw [length_utf8, byteLen_of_isAscii hascii, hlen]
    rw [utf8_append, ← length_utf8, List.drop_left, hsplit, utf8_append, ← hsplit]
    exact List.take_left' hfour
  have hstr : ((Utf8.ofUtf8? (utf8 (hs.take 4))).getD "").toList = hs.take 4 := by
    have hround := Utf8.ofUtf8?_utf8Bytes (String.ofList (hs.take 4))
    rw [Utf8.utf8Bytes, String.toList_ofList] at hround
    rw [utf8, hround, Option.getD_some, String.toList_ofList]
  have hlt : ¬(utf8 input).length < pos + 4 := by
    have := length_le_byteLen hs
    rw [List.length_take] at hlen
    rw [h.length_eq]
    omega
  simp only [lexUnicodeEscape, if_neg hlt, hbytes, hstr, hn, hchar]

theorem lexUnicodeEscape_error {single : Bool} {hs : List Char} {start pos : Nat} (h : StandsBefore input pos hs)
    (hv : ∀ v, ¬(LiteralPiece.unicode (hs.take 4) v).Valid single) :
    ∃ e, lexUnicodeEscape (utf8 input) start pos = .error (.error e) := by
  unfold lexUnicodeEscape
  split
  · exact ⟨_, rfl⟩
  next hlt =>
  simp only
  split
  · exact ⟨_, rfl⟩
  next n hn =>
  split
  · exact ⟨_, rfl⟩
  next v hchar =>
  exfalso
  -- the four bytes are a number, so they are four characters of the text
  cases hread : Utf8.ofUtf8? (((utf8 input).drop pos).take 4) with
  | none =>
    rw [hread] at hn
    exact (digits_of_fromStrRadix hn).1 rfl
  | some t =>
    rw [hread, Option.getD_some] at hn
    have hascii := isAscii_of_fromStrRadix hn
    have hbytes : utf8 t.toList = (utf8 hs).take 4 := by
      obtain ⟨pre, rfl, rfl⟩ := h
      rw [utf8_append, ← length_utf8, List.drop_left] at hread
      exact Utf8.utf8Bytes_of_ofUtf8? hread
    obtain ⟨rest, hrest⟩ := prefix_of_utf8 hascii (hbytes ▸ List.take_prefix 4 (utf8 hs))
    have hlen : t.toList.length = 4 := by
      have hfour := congrArg List.length hbytes
      rw [length_utf8, byteLen_of_isAscii hascii, List.length_take, length_utf8] at hfour
      have := h.length_eq
      omega
    have htake : hs.take 4 = t.toList := by rw [← hrest, ← hlen, List.take_left]
    exact hv v ⟨htake ▸ hlen, by rw [htake, hn]; exact hchar⟩

theorem byteAt_eq {c : Char} {cs : List Char} {pos : Nat} (h : StandsBefore input pos (c :: cs)) :
    byteAt (utf8 input) pos = .ok (lead c) := by
  rw [byteAt, h.lead_eq]
  rfl

theorem lead_u {c : Char} : lead c = 'u'.toUInt8 ↔ c = 'u' := lead_eq_iff (by decide)

theorem simpleEscape_u (single : Bool) : simpleEscape single (lead 'u') = none := by
  cases single <;> decide

/-! ## One piece -/

/-- The escape behind a backslash. -/
theorem lexEscape_piece {single : Bool} {p : LiteralPiece} (hp : p.Valid single) {c : Char} {text rest : List Char}
    (htext : p.text = '\\' :: c :: text) {start pos : Nat} {s : List Char}
    (h : StandsBefore input pos (c :: text ++ rest)) :
    ∃ stop, lexEscape (utf8 input) single start pos s = .ok (stop, s ++ p.value) ∧ StandsBefore input (stop + 1) rest := by
  have hbyte := byteAt_eq h
  cases p with
  | plain d =>
    cases htext
  | doubled => cases htext
  | escape d v =>
    cases htext
    obtain ⟨ha, hesc⟩ := hp
    refine ⟨pos, ?_, h.next_ascii ha⟩
    rw [← lead_of_isAscii ha] at hesc
    simp only [lexEscape, hbyte, bind, Except.bind, hesc]
    rfl
  | unicode hs v =>
    cases htext
    have hcode : (LiteralPiece.unicode ((text ++ rest).take 4) v).Valid single := by
      rw [← hp.1, List.take_left]
      exact hp
    have hnext : StandsBefore input (pos + 1) (text ++ rest) := h.next_ascii (by decide)
    obtain ⟨n, hn, -⟩ := Option.bind_eq_some_iff.mp hp.2
    refine ⟨pos + 1 + 3, ?_, ?_⟩
    · simp only [lexEscape, hbyte, bind, Except.bind, simpleEscape_u, lead_u, if_true, lexUnicodeEscape_ok hnext hcode]
      rfl
    · have hdrop := hnext.drop
      rwa [byteLen_of_isAscii (isAscii_of_fromStrRadix hn), hp.1] at hdrop
  | odd d =>
    cases htext
    obtain ⟨ha, hesc, hu⟩ := hp
    refine ⟨pos, ?_, h.next_ascii ha⟩
    rw [← lead_of_isAscii ha] at hesc
    simp only [lexEscape, hbyte, bind, Except.bind, hesc, lead_u, if_neg hu, byteChar_lead ha]
    rfl

/-- A piece is a character that stands for itself, two quotes, or a backslash and what it escapes. -/
theorem piece_cases {single : Bool} {p : LiteralPiece} (hp : p.Valid single) :
    (∃ c, p = .plain c ∧ c ≠ quoteOf single ∧ c ≠ '\\') ∨ (p = .doubled ∧ single = true) ∨
      ∃ c text, p.text = '\\' :: c :: text := by
  cases p with
  | plain c => exact .inl ⟨c, rfl, hp⟩
  | doubled => exact .inr (.inl ⟨rfl, hp⟩)
  | escape c v => exact .inr (.inr ⟨c, [], rfl⟩)
  | unicode hs v => exact .inr (.inr ⟨'u', hs, rfl⟩)
  | odd c => exact .inr (.inr ⟨c, [], rfl⟩)

theorem lead_backslash {c : Char} : lead c = '\\'.toUInt8 ↔ c = '\\' := lead_eq_iff (by decide)

theorem lead_singleQuote {c : Char} : lead c = '\''.toUInt8 ↔ c = quoteOf true := lead_eq_iff (by decide)

theorem lead_doubleQuote {c : Char} : lead c = doubleQuote ↔ c = quoteOf false := @lead_eq_iff c (quoteOf false) (by decide)

theorem charFrom_eq {c : Char} {cs : List Char} {pos : Nat} (h : StandsBefore input pos (c :: cs)) :
    charFrom input pos = .ok c := by
  rw [charFrom, ← Nat.add_zero pos, h.charAt_eq c.utf8Size_pos]
  rfl

/-- Inside a character there is none. -/
theorem charFrom_inside {c : Char} {cs : List Char} {pos : Nat} (h : StandsBefore input pos (c :: cs))
    (hc : isAscii c = false) : charFrom input (pos + 1) = .error .panic := by
  rw [charFrom, h.charAt_eq (one_lt_utf8Size hc)]
  rfl

/-- A backslash that is not the last byte. -/
theorem succ_lt_length {c d : Char} {cs : List Char} {pos : Nat} (h : StandsBefore input pos (c :: d :: cs)) :
    pos + 1 < (utf8 input).length := by
  have hc := c.utf8Size_pos
  have hd := d.utf8Size_pos
  rw [h.length_eq, byteLen_cons, byteLen_cons]
  omega

theorem lexSingleQuoted_piece {p : LiteralPiece} (hp : p.Valid true) {rest : List Char} {start pos : Nat} {s : List Char}
    (h : StandsBefore input pos (p.text ++ rest)) (fuel : Nat) :
    ∃ stop, lexSingleQuoted input (utf8 input) start (fuel + 1) pos s =
      lexSingleQuoted input (utf8 input) start fuel stop (s ++ p.value) ∧ StandsBefore input stop rest := by
  rcases piece_cases hp with ⟨c, rfl, hquote, hback⟩ | ⟨rfl, -⟩ | ⟨c, text, htext⟩
  · refine ⟨pos + c.utf8Size, ?_, h.next⟩
    rw [lexSingleQuoted, StandsBefore.lead_eq h]
    simp only [lead_singleQuote, if_neg hquote, lead_backslash, hback, false_and, if_false, charFrom_eq h]
    rfl
  · have hfirst : StandsBefore input pos ('\'' :: '\'' :: rest) := h
    refine ⟨pos + 2, ?_, (hfirst.next_ascii (by decide)).next_ascii (by decide)⟩
    rw [lexSingleQuoted, hfirst.lead_eq]
    have hnext : (utf8 input)[pos + 1]? = some '\''.toUInt8 := (hfirst.next_ascii (by decide)).lead_eq
    simp only [lead_singleQuote, quoteOf, if_true, hnext]
    rfl
  · have hback : StandsBefore input pos ('\\' :: c :: (text ++ rest)) := by
      rw [htext] at h
      exact h
    obtain ⟨stop, hstop, hrest⟩ := @lexEscape_piece input true p hp c text rest htext start (pos + 1) s
      (hback.next_ascii (by decide))
    refine ⟨stop + 1, ?_, hrest⟩
    rw [lexSingleQuoted, hback.lead_eq]
    have hquote : ¬lead '\\' = '\''.toUInt8 := by decide
    simp only [if_neg hquote, lead_backslash, succ_lt_length hback, and_self, if_true, hstop]

theorem lexDoubleQuoted_piece {p : LiteralPiece} (hp : p.Valid false) {rest : List Char} {start pos : Nat} {s : List Char}
    (h : StandsBefore input pos (p.text ++ rest)) (fuel : Nat) :
    ∃ stop, lexDoubleQuoted input (utf8 input) start (fuel + 1) pos s =
      lexDoubleQuoted input (utf8 input) start fuel stop (s ++ p.value) ∧ StandsBefore input stop rest := by
  rcases piece_cases hp with ⟨c, rfl, hquote, hback⟩ | ⟨-, hf⟩ | ⟨c, text, htext⟩
  · refine ⟨pos + c.utf8Size, ?_, h.next⟩
    rw [lexDoubleQuoted, StandsBefore.lead_eq h]
    simp only [lead_doubleQuote, if_neg hquote, lead_backslash, hback, false_and, if_false, charFrom_eq h]
    rfl
  · cases hf
  · have hback : StandsBefore input pos ('\\' :: c :: (text ++ rest)) := by
      rw [htext] at h
      exact h
    obtain ⟨stop, hstop, hrest⟩ := @lexEscape_piece input false p hp c text rest htext start (pos + 1) s
      (hback.next_ascii (by decide))
    refine ⟨stop + 1, ?_, hrest⟩
    rw [lexDoubleQuoted, hback.lead_eq]
    have hquote : ¬lead '\\' = doubleQuote := by decide
    simp only [if_neg hquote, lead_backslash, succ_lt_length hback, and_self, if_true, hstop]

/-! ## The pieces of a literal -/

theorem lexSingleQuoted_pieces {start fuel : Nat} {rest : List Char} : ∀ {ps : List LiteralPiece}, (∀ p ∈ ps, p.Valid true) →
    ∀ {pos : Nat} {s : List Char}, StandsBefore input pos (pieceText ps ++ rest) →
      ∃ stop, lexSingleQuoted input (utf8 input) start (fuel + ps.length) pos s =
        lexSingleQuoted input (utf8 input) start fuel stop (s ++ pieceValue ps) ∧ StandsBefore input stop rest
  | [], _, pos, s, h => ⟨pos, by rw [pieceValue, List.flatMap_nil, List.append_nil]; rfl, h⟩
  | p :: ps, hps, pos, s, h => by
    have hfirst : StandsBefore input pos (p.text ++ (pieceText ps ++ rest)) := by
      rwa [← List.append_assoc]
    obtain ⟨stop, hstop, hrest⟩ := lexSingleQuoted_piece (hps p List.mem_cons_self) hfirst (fuel + ps.length)
    obtain ⟨stop', hstop', hrest'⟩ := lexSingleQuoted_pieces (fun q hq => hps q (List.mem_cons_of_mem _ hq)) hrest
    refine ⟨stop', ?_, hrest'⟩
    rw [List.length_cons, ← Nat.add_assoc, hstop, hstop', List.append_assoc]
    rfl

theorem lexDoubleQuoted_pieces {start fuel : Nat} {rest : List Char} : ∀ {ps : List LiteralPiece}, (∀ p ∈ ps, p.Valid false) →
    ∀ {pos : Nat} {s : List Char}, StandsBefore input pos (pieceText ps ++ rest) →
      ∃ stop, lexDoubleQuoted input (utf8 input) start (fuel + ps.length) pos s =
        lexDoubleQuoted input (utf8 input) start fuel stop (s ++ pieceValue ps) ∧ StandsBefore input stop rest
  | [], _, pos, s, h => ⟨pos, by rw [pieceValue, List.flatMap_nil, List.append_nil]; rfl, h⟩
  | p :: ps, hps, pos, s, h => by
    have hfirst : StandsBefore input pos (p.text ++ (pieceText ps ++ rest)) := by
      rwa [← List.append_assoc]
    obtain ⟨stop, hstop, hrest⟩ := lexDoubleQuoted_piece (hps p List.mem_cons_self) hfirst (fuel + ps.length)
    obtain ⟨stop', hstop', hrest'⟩ := lexDoubleQuoted_pieces (fun q hq => hps q (List.mem_cons_of_mem _ hq)) hrest
    refine ⟨stop', ?_, hrest'⟩
    rw [List.length_cons, ← Nat.add_assoc, hstop, hstop', List.append_assoc]
    rfl

/-- There are at most as many pieces as bytes. -/
theorem length_le_pieceText : ∀ ps : List LiteralPiece, ps.length ≤ (pieceText ps).length
  | [] => Nat.le_refl _
  | p :: ps => by
    have ih := length_le_pieceText ps
    have hp : 1 ≤ p.text.length := by cases p <;> simp [LiteralPiece.text]
    rw [pieceText, List.flatMap_cons, List.length_append, List.length_cons]
    rw [pieceText] at ih
    omega

/-- Every text is pieces and an ending. -/
theorem exists_pieces (single : Bool) (cs : List Char) :
    ∃ ps t, cs = pieceText ps ++ t ∧ (∀ p ∈ ps, p.Valid single) ∧ Ending single t := by
  -- by induction on the length, since a piece has up to six characters
  induction hn : cs.length using Nat.strong_induction_on generalizing cs with
  | _ n ih =>
  have hstep : ∀ (p : LiteralPiece) (rest : List Char), cs = p.text ++ rest → p.Valid single →
      ∃ ps t, cs = pieceText ps ++ t ∧ (∀ p ∈ ps, p.Valid single) ∧ Ending single t := by
    rintro p rest rfl hp
    have hpos : 1 ≤ p.text.length := by cases p <;> simp [LiteralPiece.text]
    rw [List.length_append] at hn
    obtain ⟨ps, t, hrest, hps, ht⟩ := ih rest.length (by omega) rest rfl
    refine ⟨p :: ps, t, ?_, List.forall_mem_cons.mpr ⟨hp, hps⟩, ht⟩
    rw [pieceText, List.flatMap_cons, List.append_assoc, ← pieceText, ← hrest]
  have hend : Ending single cs → ∃ ps t, cs = pieceText ps ++ t ∧ (∀ p ∈ ps, p.Valid single) ∧ Ending single t :=
    fun h => ⟨[], cs, rfl, by simp, h⟩
  rcases cs with _ | ⟨c, cs⟩
  · exact hend .open_
  by_cases hquote : c = quoteOf single
  · subst hquote
    by_cases hdouble : single = true ∧ cs.head? = some '\''
    · obtain ⟨rfl, hhead⟩ := hdouble
      obtain ⟨rest, rfl⟩ : ∃ rest, cs = '\'' :: rest := by
        cases cs with
        | nil => simp at hhead
        | cons d rest => exact ⟨rest, by rw [List.head?_cons] at hhead; rw [Option.some.inj hhead]⟩
      exact hstep .doubled rest rfl rfl
    · exact hend (.closed cs fun hsingle hhead => hdouble ⟨hsingle, hhead⟩)
  by_cases hback : c = '\\'
  swap
  · exact hstep (.plain c) cs rfl ⟨hquote, hback⟩
  subst hback
  rcases cs with _ | ⟨d, cs⟩
  · exact hend .lone
  cases ha : isAscii d with
  | false => exact hend (.split d cs ha)
  | true =>
    cases hesc : simpleEscape single d.toUInt8 with
    | some v => exact hstep (.escape d v) cs rfl ⟨ha, hesc⟩
    | none =>
      by_cases hu : d = 'u'
      · subst hu
        by_cases hcode : ∃ v, (LiteralPiece.unicode (cs.take 4) v).Valid single
        · obtain ⟨v, hv⟩ := hcode
          exact hstep (.unicode (cs.take 4) v) (cs.drop 4) (by simp [LiteralPiece.text]) hv
        · exact hend (.refused cs fun v hv => hcode ⟨v, hv⟩)
      · exact hstep (.odd d) cs rfl ⟨ha, hesc, hu⟩

/-! ## How a literal ends -/

/-- The loop of a literal and what is done with its closing quote. -/
def literalLoop (single : Bool) (input : List Char) (start fuel pos : Nat) (s : List Char) : LexM (Nat × List Char) :=
  if single then lexSingleQuoted input (utf8 input) start fuel pos s
  else (lexDoubleQuoted input (utf8 input) start fuel pos s).map (fun stop => (skipClosing (utf8 input) stop.1, stop.2))

section

variable {single : Bool} {start fuel pos : Nat} {s : List Char}

theorem literalLoop_pieces {ps : List LiteralPiece} (hps : ∀ p ∈ ps, p.Valid single) {rest : List Char}
    (h : StandsBefore input pos (pieceText ps ++ rest)) :
    ∃ stop, literalLoop single input start (fuel + ps.length) pos s = literalLoop single input start fuel stop (s ++ pieceValue ps) ∧
      StandsBefore input stop rest := by
  cases single with
  | true => exact lexSingleQuoted_pieces hps h
  | false =>
    obtain ⟨stop, hstop, hrest⟩ := @lexDoubleQuoted_pieces input start fuel rest ps hps pos s h
    refine ⟨stop, ?_, hrest⟩
    simp only [literalLoop, Bool.false_eq_true, if_false, hstop]

theorem literalLoop_closed {rest : List Char} (h : StandsBefore input pos (quoteOf single :: rest))
    (hrest : single = true → rest.head? ≠ some '\'') :
    literalLoop single input start (fuel + 1) pos s = .ok (pos + 1, s) := by
  cases single with
  | true =>
    have hnext : ¬(utf8 input)[pos + 1]? = some '\''.toUInt8 := by
      rw [h.lead_next (by decide), eq_of_head?_lead (by decide)]
      exact hrest rfl
    simp only [literalLoop, if_true]
    rw [lexSingleQuoted, h.lead_eq]
    simp only [lead_singleQuote, if_true, if_neg hnext]
  | false =>
    have hlt : pos < (utf8 input).length := by
      have hpos := (quoteOf false).utf8Size_pos
      rw [h.length_eq, byteLen_cons]
      omega
    simp only [literalLoop, Bool.false_eq_true, if_false]
    rw [lexDoubleQuoted, h.lead_eq]
    simp only [lead_doubleQuote, if_true, Except.map, skipClosing, if_pos hlt]

theorem literalLoop_open (h : StandsBefore input pos []) : literalLoop single input start fuel pos s = .ok (pos, s) := by
  have hlt : ¬pos < (utf8 input).length := by
    rw [h.length_eq, byteLen_nil]
    omega
  unfold literalLoop lexSingleQuoted lexDoubleQuoted
  simp only [h.eq_none, Except.map, skipClosing, if_neg hlt, ite_self]

theorem literalLoop_lone (h : StandsBefore input pos ['\\']) :
    literalLoop single input start (fuel + 1) pos s = .ok (pos + 1, s ++ ['\\']) := by
  have hnext : StandsBefore input (pos + 1) [] := h.next_ascii (by decide)
  have hlt : ¬pos + 1 < (utf8 input).length := by
    rw [hnext.length_eq, byteLen_nil]
    omega
  have hend := @literalLoop_open input single start fuel (pos + 1) (s ++ ['\\']) hnext
  cases single with
  | true =>
    have hquote : ¬lead '\\' = '\''.toUInt8 := by decide
    simp only [literalLoop, if_true] at hend ⊢
    rw [lexSingleQuoted, h.lead_eq]
    simp only [if_neg hquote, hlt, and_false, if_false, charFrom_eq h]
    exact hend
  | false =>
    have hquote : ¬lead '\\' = doubleQuote := by decide
    simp only [literalLoop, Bool.false_eq_true, if_false] at hend ⊢
    rw [lexDoubleQuoted, h.lead_eq]
    simp only [if_neg hquote, hlt, and_false, if_false, charFrom_eq h]
    exact hend

/-- The loop goes on behind an escape. -/
theorem literalLoop_escape {c : Char} {cs : List Char} (h : StandsBefore input pos ('\\' :: c :: cs)) :
    literalLoop single input start (fuel + 1) pos s =
      match lexEscape (utf8 input) single start (pos + 1) s with
      | .error e => .error e
      | .ok (pos, s) => literalLoop single input start fuel (pos + 1) s := by
  cases single with
  | true =>
    have hquote : ¬lead '\\' = '\''.toUInt8 := by decide
    simp only [literalLoop, if_true]
    rw [lexSingleQuoted, h.lead_eq]
    cases lexEscape (utf8 input) true start (pos + 1) s <;>
      simp only [if_neg hquote, lead_backslash, succ_lt_length h, and_self, if_true]
  | false =>
    have hquote : ¬lead '\\' = doubleQuote := by decide
    simp only [literalLoop, Bool.false_eq_true, if_false]
    rw [lexDoubleQuoted, h.lead_eq]
    cases lexEscape (utf8 input) false start (pos + 1) s <;>
      simp only [if_neg hquote, lead_backslash, succ_lt_length h, and_self, if_true, Except.map]

theorem literalLoop_refused {hs : List Char} (h : StandsBefore input pos ('\\' :: 'u' :: hs))
    (hv : ∀ v, ¬(LiteralPiece.unicode (hs.take 4) v).Valid single) :
    ∃ e, literalLoop single input start (fuel + 1) pos s = .error (.error e) := by
  have hu : StandsBefore input (pos + 1) ('u' :: hs) := h.next_ascii (by decide)
  obtain ⟨e, he⟩ := @lexUnicodeEscape_error input single hs start (pos + 1 + 1) (hu.next_ascii (by decide)) hv
  refine ⟨e, ?_⟩
  rw [literalLoop_escape h]
  simp only [lexEscape, byteAt_eq hu, bind, Except.bind, simpleEscape_u, lead_u, if_true, he]

/-- A backslash before a character of several bytes leads the loop into the character. -/
theorem literalLoop_split {c : Char} {cs : List Char} (h : StandsBefore input pos ('\\' :: c :: cs)) (hc : isAscii c = false) :
    literalLoop single input start (fuel + 2) pos s = .error .panic := by
  have hnext : StandsBefore input (pos + 1) (c :: cs) := h.next_ascii (by decide)
  have hhigh := le_lead hc
  have hesc : lexEscape (utf8 input) single start (pos + 1) s = .ok (pos + 1, s ++ ['\\', byteChar (lead c)]) := by
    have hnone : simpleEscape single (lead c) = none := by
      simp (disch := decide) only [simpleEscape, high_ne hhigh, doubleQuote, if_false]
    have hu : ¬lead c = 'u'.toUInt8 := high_ne hhigh (by decide)
    simp only [lexEscape, byteAt_eq hnext, bind, Except.bind, hnone, if_neg hu]
    rfl
  -- the next byte is inside the character
  obtain ⟨b, hb, hbyte⟩ := hnext.byte_mem (one_lt_utf8Size hc)
  have hb128 := le_of_mem_encodeChar hc hb
  have hinside := charFrom_inside hnext hc
  rw [literalLoop_escape h, hesc]
  cases single with
  | true =>
    simp only [literalLoop, if_true]
    rw [lexSingleQuoted, hbyte]
    simp (disch := decide) only [high_ne hb128, if_false, false_and, hinside]
  | false =>
    simp only [literalLoop, Bool.false_eq_true, if_false]
    rw [lexDoubleQuoted, hbyte]
    simp (disch := decide) only [high_ne hb128, doubleQuote, if_false, false_and, hinside]
    rfl

end

/-! ## Names in backticks -/

theorem lead_backtick {c : Char} : lead c = backtick ↔ c = backtickChar := @lead_eq_iff c backtickChar (by decide)

theorem lexBackquoted_name {fuel : Nat} {rest : List Char} : ∀ {name : List Char}, backtickChar ∉ name →
    ∀ {pos : Nat} {s : List Char}, StandsBefore input pos (name ++ rest) →
      ∃ stop, lexBackquoted input (utf8 input) (fuel + name.length) pos s =
        lexBackquoted input (utf8 input) fuel stop (s ++ name) ∧ StandsBefore input stop rest
  | [], _, pos, s, h => ⟨pos, by rw [List.append_nil]; rfl, h⟩
  | c :: name, hn, pos, s, h => by
    rw [List.mem_cons, not_or] at hn
    obtain ⟨stop, hstop, hrest⟩ := @lexBackquoted_name fuel rest name hn.2 (pos + c.utf8Size) (s ++ [c]) h.next
    refine ⟨stop, ?_, hrest⟩
    have hquote : ¬lead c = backtick := fun hc => hn.1 (lead_backtick.mp hc).symm
    rw [List.length_cons, ← Nat.add_assoc, lexBackquoted, StandsBefore.lead_eq h]
    simp only [if_neg hquote, charFrom_eq h, hstop]
    rw [List.append_assoc, List.singleton_append]

/-! ## The round of a quoted lexeme -/

theorem lexRound_literal {single : Bool} {cs : List Char} {pos fuel : Nat}
    (h : StandsBefore input pos (quoteOf single :: cs)) :
    lexRound input (utf8 input) fuel pos = (literalLoop single input pos fuel (pos + 1) []).map
      (fun stop => (stop.1, some ⟨.stringLit (String.ofList stop.2), pos⟩)) := by
  rw [lexRound_eq h.lead_eq]
  cases single with
  | true =>
    have hspace : ¬isAsciiWhitespace (lead (quoteOf true)) = true := by decide
    have hslash : ¬lead (quoteOf true) = '/'.toUInt8 := by decide
    simp only [if_neg hspace, hslash, false_and, if_false, lexToken, lead_singleQuote, if_true, literalLoop]
    cases lexSingleQuoted input (utf8 input) pos fuel (pos + 1) [] <;> rfl
  | false =>
    have hspace : ¬isAsciiWhitespace (lead (quoteOf false)) = true := by decide
    have hslash : ¬lead (quoteOf false) = '/'.toUInt8 := by decide
    have hsingle : ¬lead (quoteOf false) = '\''.toUInt8 := by decide
    simp only [if_neg hspace, hslash, false_and, if_false, lexToken, if_neg hsingle, lead_doubleQuote, if_true, literalLoop,
      Bool.false_eq_true]
    cases lexDoubleQuoted input (utf8 input) pos fuel (pos + 1) [] <;> rfl

theorem lexRound_name {cs : List Char} {pos fuel : Nat} (h : StandsBefore input pos (backtickChar :: cs)) :
    lexRound input (utf8 input) fuel pos = (lexBackquoted input (utf8 input) fuel (pos + 1) []).map
      (fun stop => (skipClosing (utf8 input) stop.1, some ⟨.ident (String.ofList stop.2), pos⟩)) := by
  rw [lexRound_eq h.lead_eq]
  have hspace : ¬isAsciiWhitespace (lead backtickChar) = true := by decide
  have hslash : ¬lead backtickChar = '/'.toUInt8 := by decide
  have hsingle : ¬lead backtickChar = '\''.toUInt8 := by decide
  have hdouble : ¬lead backtickChar = doubleQuote := by decide
  simp only [if_neg hspace, hslash, false_and, if_false, lexToken, if_neg hsingle, if_neg hdouble, lead_backtick, if_true]
  cases lexBackquoted input (utf8 input) fuel (pos + 1) [] <;> rfl

/-- The loop of a literal behind its pieces. -/
theorem literalLoop_behind {single : Bool} {ps : List LiteralPiece} (hps : ∀ p ∈ ps, p.Valid single) {t : List Char} {pos fuel : Nat}
    (h : StandsBefore input pos (quoteOf single :: (pieceText ps ++ t)))
    (hf : byteLen (quoteOf single :: (pieceText ps ++ t)) ≤ fuel) :
    ∃ stop k, byteLen t < k ∧ StandsBefore input stop t ∧
      literalLoop single input pos fuel (pos + 1) [] = literalLoop single input pos k stop (pieceValue ps) := by
  have hquote : isAscii (quoteOf single) = true := by cases single <;> decide
  have hlen := length_le_pieceText ps
  have hbytes := length_le_byteLen (pieceText ps)
  rw [byteLen_cons, byteLen_append, utf8Size_of_isAscii hquote] at hf
  obtain ⟨k, rfl⟩ : ∃ k, fuel = k + ps.length := ⟨fuel - ps.length, by omega⟩
  obtain ⟨stop, hstop, hrest⟩ := @literalLoop_pieces input single pos k (pos + 1) [] ps hps t (h.next_ascii hquote)
  exact ⟨stop, k, by omega, hrest, hstop⟩

theorem lexRound_closed {single : Bool} {ps : List LiteralPiece} (hps : ∀ p ∈ ps, p.Valid single) {rest : List Char} {pos fuel : Nat}
    (hrest : single = true → rest.head? ≠ some '\'')
    (h : StandsBefore input pos (quoteOf single :: (pieceText ps ++ quoteOf single :: rest)))
    (hf : byteLen (quoteOf single :: (pieceText ps ++ quoteOf single :: rest)) ≤ fuel) :
    ∃ stop, lexRound input (utf8 input) fuel pos = .ok (stop, some ⟨.stringLit (String.ofList (pieceValue ps)), pos⟩) ∧
      StandsBefore input stop rest := by
  obtain ⟨stop, k, hk, hstop, hloop⟩ := literalLoop_behind hps h hf
  have hquote : isAscii (quoteOf single) = true := by cases single <;> decide
  obtain ⟨k, rfl⟩ : ∃ n, k = n + 1 := ⟨k - 1, by omega⟩
  refine ⟨stop + 1, ?_, hstop.next_ascii hquote⟩
  rw [lexRound_literal h, hloop, literalLoop_closed hstop hrest]
  rfl

theorem lexRound_open {single : Bool} {ps : List LiteralPiece} (hps : ∀ p ∈ ps, p.Valid single) {pos fuel : Nat}
    (h : StandsBefore input pos (quoteOf single :: pieceText ps)) (hf : byteLen (quoteOf single :: pieceText ps) ≤ fuel) :
    ∃ stop token, lexRound input (utf8 input) fuel pos = .ok (stop, some token) ∧ StandsBefore input stop [] := by
  rw [← List.append_nil (pieceText ps)] at h hf
  obtain ⟨stop, k, -, hstop, hloop⟩ := literalLoop_behind hps h hf
  rw [lexRound_literal h, hloop, literalLoop_open hstop]
  exact ⟨stop, _, rfl, hstop⟩

theorem lexRound_lone {single : Bool} {ps : List LiteralPiece} (hps : ∀ p ∈ ps, p.Valid single) {pos fuel : Nat}
    (h : StandsBefore input pos (quoteOf single :: (pieceText ps ++ ['\\'])))
    (hf : byteLen (quoteOf single :: (pieceText ps ++ ['\\'])) ≤ fuel) :
    ∃ stop token, lexRound input (utf8 input) fuel pos = .ok (stop, some token) ∧ StandsBefore input stop [] := by
  obtain ⟨stop, k, hk, hstop, hloop⟩ := literalLoop_behind hps h hf
  obtain ⟨k, rfl⟩ : ∃ n, k = n + 1 := ⟨k - 1, by omega⟩
  rw [lexRound_literal h, hloop, literalLoop_lone hstop]
  exact ⟨stop + 1, _, rfl, hstop.next_ascii (by decide)⟩

theorem lexRound_refused {single : Bool} {ps : List LiteralPiece} (hps : ∀ p ∈ ps, p.Valid single) {hs : List Char} {pos fuel : Nat}
    (hv : ∀ v, ¬(LiteralPiece.unicode (hs.take 4) v).Valid single)
    (h : StandsBefore input pos (quoteOf single :: (pieceText ps ++ '\\' :: 'u' :: hs)))
    (hf : byteLen (quoteOf single :: (pieceText ps ++ '\\' :: 'u' :: hs)) ≤ fuel) :
    ∃ e, lexRound input (utf8 input) fuel pos = .error (.error e) := by
  obtain ⟨stop, k, hk, hstop, hloop⟩ := literalLoop_behind hps h hf
  obtain ⟨k, rfl⟩ : ∃ n, k = n + 1 := ⟨k - 1, by omega⟩
  obtain ⟨e, he⟩ := @literalLoop_refused input single pos k stop (pieceValue ps) hs hstop hv
  refine ⟨e, ?_⟩
  rw [lexRound_literal h, hloop, he]
  rfl

theorem lexRound_split {single : Bool} {ps : List LiteralPiece} (hps : ∀ p ∈ ps, p.Valid single) {c : Char} {rest : List Char}
    {pos fuel : Nat} (hc : isAscii c = false)
    (h : StandsBefore input pos (quoteOf single :: (pieceText ps ++ '\\' :: c :: rest)))
    (hf : byteLen (quoteOf single :: (pieceText ps ++ '\\' :: c :: rest)) ≤ fuel) :
    lexRound input (utf8 input) fuel pos = .error .panic := by
  obtain ⟨stop, k, hk, hstop, hloop⟩ := literalLoop_behind hps h hf
  rw [byteLen_cons, byteLen_cons] at hk
  have hbytes := c.utf8Size_pos
  obtain ⟨k, rfl⟩ : ∃ n, k = n + 2 := ⟨k - 2, by omega⟩
  rw [lexRound_literal h, hloop, literalLoop_split hstop hc]
  rfl

theorem lexRound_closedName {name rest : List Char} (hn : backtickChar ∉ name) {pos fuel : Nat}
    (h : StandsBefore input pos (backtickChar :: (name ++ backtickChar :: rest)))
    (hf : byteLen (backtickChar :: (name ++ backtickChar :: rest)) ≤ fuel) :
    ∃ stop token, lexRound input (utf8 input) fuel pos = .ok (stop, some token) ∧ StandsBefore input stop rest := by
  have hname := length_le_byteLen name
  rw [byteLen_cons, byteLen_append] at hf
  obtain ⟨k, rfl⟩ : ∃ k, fuel = k + name.length := ⟨fuel - name.length, by omega⟩
  obtain ⟨stop, hstop, hrest⟩ := @lexBackquoted_name input k _ name hn (pos + 1) [] (h.next_ascii (by decide))
  have hlt : stop < (utf8 input).length := by
    have hpos := backtickChar.utf8Size_pos
    rw [hrest.length_eq, byteLen_cons]
    omega
  have hend : ∀ s, lexBackquoted input (utf8 input) k stop s = .ok (stop, s) := by
    intro s
    unfold lexBackquoted
    rw [hrest.lead_eq]
    simp only [lead_backtick, if_true]
  rw [lexRound_name h, hstop, hend]
  simp only [Except.map, skipClosing, if_pos hlt]
  exact ⟨stop + 1, _, rfl, hrest.next_ascii (by decide)⟩

theorem lexRound_openName {name : List Char} (hn : backtickChar ∉ name) {pos fuel : Nat}
    (h : StandsBefore input pos (backtickChar :: name)) (hf : byteLen (backtickChar :: name) ≤ fuel) :
    ∃ stop token, lexRound input (utf8 input) fuel pos = .ok (stop, some token) ∧ StandsBefore input stop [] := by
  have hname := length_le_byteLen name
  rw [byteLen_cons] at hf
  obtain ⟨k, rfl⟩ : ∃ k, fuel = k + name.length := ⟨fuel - name.length, by omega⟩
  have hnext : StandsBefore input (pos + 1) (name ++ []) := by
    rw [List.append_nil]
    exact h.next_ascii (by decide)
  obtain ⟨stop, hstop, hrest⟩ := @lexBackquoted_name input k [] name hn (pos + 1) [] hnext
  have hlt : ¬stop < (utf8 input).length := by
    rw [hrest.length_eq, byteLen_nil]
    omega
  have hend : ∀ s, lexBackquoted input (utf8 input) k stop s = .ok (stop, s) := by
    intro s
    unfold lexBackquoted
    simp only [hrest.eq_none]
  rw [lexRound_name h, hstop, hend]
  simp only [Except.map, skipClosing, if_neg hlt]
  exact ⟨stop, _, rfl, hrest⟩

end LexerAux

open LexerAux in
/-- A quoted lexeme is a token. -/
theorem Quoted.lexRound {input suf rest : List Char} (hq : Quoted suf rest) {pos fuel : Nat} (h : StandsBefore input pos suf)
    (hf : byteLen suf ≤ fuel) :
    ∃ stop token, lexRound input (utf8 input) fuel pos = .ok (stop, some token) ∧ StandsBefore input stop rest := by
  cases hq with
  | literal hps hrest =>
    obtain ⟨stop, hstop, hnext⟩ := lexRound_closed hps hrest h hf
    exact ⟨stop, _, hstop, hnext⟩
  | openLiteral hps => exact lexRound_open hps h hf
  | loneLiteral hps => exact lexRound_lone hps h hf
  | name hn => exact lexRound_closedName hn h hf
  | openName hn => exact lexRound_openName hn h hf

/-- A literal with a backslash directly before a character of several bytes, which is an escape of none. -/
def EscapesMultibyte (suf : List Char) : Prop :=
  ∃ single ps c rest, (∀ p ∈ ps, LiteralPiece.Valid single p) ∧ suf = quoteOf single :: (pieceText ps ++ '\\' :: c :: rest) ∧
    isAscii c = false

open LexerAux in
/-- What a round comes to before a quoted lexeme. -/
theorem quoted_cases {input : List Char} {c : Char} (hc : isQuote c = true) {cs : List Char} {pos fuel : Nat}
    (h : StandsBefore input pos (c :: cs)) (hf : byteLen (c :: cs) ≤ fuel) :
    (∃ rest, Quoted (c :: cs) rest) ∨ (∃ e, lexRound input (utf8 input) fuel pos = .error (.error e)) ∨
      EscapesMultibyte (c :: cs) := by
  simp only [isQuote, Bool.or_eq_true, decide_eq_true_eq, lead_singleQuote, lead_doubleQuote, lead_backtick] at hc
  have hliteral : ∀ single, c = quoteOf single → (∃ rest, Quoted (c :: cs) rest) ∨
      (∃ e, lexRound input (utf8 input) fuel pos = .error (.error e)) ∨ EscapesMultibyte (c :: cs) := by
    rintro single rfl
    obtain ⟨ps, t, rfl, hps, ht⟩ := exists_pieces single cs
    cases ht with
    | closed rest hrest => exact .inl ⟨rest, .literal hps hrest⟩
    | open_ =>
      rw [List.append_nil]
      exact .inl ⟨[], .openLiteral hps⟩
    | lone => exact .inl ⟨[], .loneLiteral hps⟩
    | refused hs hv => exact .inr (.inl (lexRound_refused hps hv h hf))
    | split d rest hd => exact .inr (.inr ⟨single, ps, d, rest, hps, rfl, hd⟩)
  rcases hc with (hc | hc) | rfl
  · exact hliteral true hc
  · exact hliteral false hc
  · by_cases hmem : backtickChar ∈ cs
    · obtain ⟨name, rest, rfl, hn⟩ := List.eq_append_cons_of_mem hmem
      exact .inl ⟨rest, .name hn⟩
    · exact .inl ⟨[], .openName hmem⟩

end PgEddy
