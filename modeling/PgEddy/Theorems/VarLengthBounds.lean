import PgEddy.Json
import PgEddy.Lemmas.IntTokens
import PgEddy.Lemmas.RelDetail

/-!
# The bounds of a variable-length relationship

From the text to the pattern a bound is read exactly as long as it fits into 32 bits. The parser cuts a greater one down without
a word, up to the greatest integer that the lexer lets pass.
-/

namespace PgEddy

open Text Descent

/-- The pattern has the bounds that are written: one for a minimum left out, and none for a maximum left out. -/
def KeepsBounds (input : List Char) (detail : List LexedToken) (vl : VarLength) : Prop :=
  vl.min = (writtenBounds input (afterStar detail)).1.getD 1 ∧ vl.max = (writtenBounds input (afterStar detail)).2

/-- Every bound that is written fits into 32 bits. -/
def BoundsFit (input : List Char) (detail : List LexedToken) : Prop :=
  (∀ n ∈ (writtenBounds input (afterStar detail)).1, n < 2 ^ 32) ∧ ∀ m ∈ (writtenBounds input (afterStar detail)).2, m < 2 ^ 32

namespace VarLengthBoundsAux

open RelDetailAux

variable {input : List Char} {ts : List LexedToken}

/-- The tokens carry the numbers that are written where they start. -/
def Carrying (input : List Char) (ts : List LexedToken) : Prop :=
  ∀ t ∈ ts, t.token.Carries (literalValue (textAt input t.offset))

/-- The tokens as the parser sees them. -/
abbrev seen (input : List Char) (ts : List LexedToken) : List SpannedToken := ts.map (spanned input)

/-- A bound as the parser cuts it down. -/
def cutBound (n : Option Nat) : Option Nat := n.map (· % 2 ^ 32)

/-! ## One bound -/

theorem toNat_toUInt64_eq {v : Int64} {n : Nat} (h : v.toInt = n) : v.toUInt64.toNat = n := by
  have hneg : ¬v < 0 := by
    rw [Int64.lt_iff_toInt_lt, h]
    exact not_lt.mpr (Int.natCast_nonneg n)
  have hlt := JsonNumber.toNat_toUInt64 hneg
  have hint := JsonNumber.toInt_toInt64 hlt
  rw [Int64.toInt64_toUInt64, h] at hint
  exact Int.ofNat.inj hint.symm

/-- A bound that is written is taken, cut down, unless it is the integer that only stands behind a minus. -/
theorem hopCount?_seen (hcarry : Carrying input ts) (hbig : headToken (seen input ts) ≠ .intLitBig) :
    hopCount? (seen input ts) =
      .ok (cutBound (writtenBound input ts), seen input (if (writtenBound input ts).isSome then ts.tail else ts)) := by
  cases ts with
  | nil => rfl
  | cons t ts =>
    obtain ⟨token, offset⟩ := t
    have ht := hcarry _ List.mem_cons_self
    cases token with
    | intLit v =>
      have hv : v.toInt = (literalValue (textAt input offset) : Nat) := ht
      have hcut : hopCount? (seen input (⟨.intLit v, offset⟩ :: ts)) = .ok (some (v.toUInt64.toNat % 2 ^ 32), seen input ts) :=
        rfl
      rw [hcut, toNat_toUInt64_eq hv]
      rfl
    | intLitBig => exact absurd rfl hbig
    | _ => rfl

/-- Where the integer of a minus stands, no bound is taken. -/
theorem hopCount?_big (hbig : headToken (seen input ts) = .intLitBig) :
    hopCount? (seen input ts) = .ok (none, seen input ts) := by
  cases ts with
  | nil => rfl
  | cons t ts =>
    obtain ⟨token, offset⟩ := t
    cases (show token = .intLitBig from hbig)
    rfl

/-! ## Both bounds -/

theorem headToken_seen : headToken (seen input ts) = (ts.head?.map LexedToken.token).getD .eof := by
  cases ts <;> rfl

theorem headToken_dotDot : headToken (seen input ts) = .dotDot ↔ ts.head?.map LexedToken.token = some .dotDot := by
  rw [headToken_seen]
  cases ts with
  | nil => exact iff_of_false nofun nofun
  | cons t ts => simp

/-- The length behind a star, if it is not followed by another integer. -/
theorem parseLength_seen (hcarry : Carrying input ts) {vl : VarLength} {after : List SpannedToken}
    (h : parseLength (seen input ts) = .ok (vl, after)) (hafter : headToken after ≠ .intLitBig) :
    vl.min = (cutBound (writtenBounds input ts).1).getD 1 ∧ vl.max = cutBound (writtenBounds input ts).2 := by
  obtain ⟨min, rest, hmin, h⟩ := bind_eq_ok.mp h
  obtain ⟨_, _, hpeek, h⟩ := bind_eq_ok.mp h
  cases hpeek
  have hbig : headToken (seen input ts) ≠ .intLitBig := by
    intro hbig
    rw [hopCount?_big hbig] at hmin
    cases hmin
    rw [if_neg (by rw [hbig]; nofun)] at h
    cases h
    exact hafter hbig
  rw [hopCount?_seen hcarry hbig] at hmin
  cases hmin
  unfold writtenBounds
  dsimp only
  have hcarry' : Carrying input (if (writtenBound input ts).isSome then ts.tail else ts).tail := by
    intro t ht
    refine hcarry t ?_
    split at ht
    · exact List.mem_of_mem_tail (List.mem_of_mem_tail ht)
    · exact List.mem_of_mem_tail ht
  generalize (if (writtenBound input ts).isSome then ts.tail else ts) = ts' at h hcarry' ⊢
  split at h
  · next hdots =>
    rw [if_pos (headToken_dotDot.mp hdots)]
    obtain ⟨_, _, hadvance, h⟩ := bind_eq_ok.mp h
    cases hadvance
    obtain ⟨max, rest, hmax, h⟩ := bind_eq_ok.mp h
    cases h
    have htail : (seen input ts').tail = seen input ts'.tail := List.map_tail.symm
    rw [htail] at hmax
    have hbig' : headToken (seen input ts'.tail) ≠ .intLitBig := by
      intro hbig'
      rw [hopCount?_big hbig'] at hmax
      cases hmax
      exact hafter hbig'
    rw [hopCount?_seen hcarry' hbig'] at hmax
    cases hmax
    exact ⟨rfl, rfl⟩
  · next hdots =>
    rw [if_neg fun h => hdots (headToken_dotDot.mpr h)]
    cases h
    exact ⟨rfl, rfl⟩

theorem behindStar_seen (detail : List LexedToken) : behindStar (seen input detail) = seen input (afterStar detail) := by
  rw [behindStar, seen, List.dropWhile_map, afterStar, seen, List.map_tail]
  rfl

theorem carrying_afterStar {detail : List LexedToken} (h : Carrying input detail) : Carrying input (afterStar detail) :=
  fun t ht => h t ((List.dropWhile_sublist _).mem (List.mem_of_mem_tail ht))

/-! ## Cut bounds -/

theorem cutBound_eq_iff {n : Option Nat} : cutBound n = n ↔ ∀ x ∈ n, x < 2 ^ 32 := by
  cases n with
  | none => simp [cutBound]
  | some n => simp [cutBound]

theorem cutBound_getD_eq_iff {n : Option Nat} : (cutBound n).getD 1 = n.getD 1 ↔ ∀ x ∈ n, x < 2 ^ 32 := by
  cases n with
  | none => simp [cutBound]
  | some n => simp [cutBound]

end VarLengthBoundsAux

open VarLengthBoundsAux

/-- For every text that the lexer takes and every relationship with a length that the parser reads from its tokens, the pattern
has the bounds that are written just when every one of them fits into 32 bits. -/
theorem var_length_bounds_iff {input : List Char} {before detail : List LexedToken} (hlex : lex input = .ok (before ++ detail))
    (parseExpr : P Expr) (k : Nat) {rel : RelPattern} {node : NodePattern} {rest : List SpannedToken}
    (hparse : parseRelAndNode parseExpr k (detail.map (spanned input)) = .ok ((rel, node), rest)) {vl : VarLength}
    (hlength : rel.length = some vl) : KeepsBounds input detail vl ↔ BoundsFit input detail := by
  have hcarry : Carrying input (afterStar detail) :=
    carrying_afterStar fun t ht => lex_carries hlex (List.mem_append_right before ht)
  obtain ⟨after, hlen, hafter⟩ := RelDetailAux.parseRelAndNode_length hlength hparse
  rw [behindStar_seen] at hlen
  obtain ⟨hmin, hmax⟩ := parseLength_seen hcarry hlen (by rcases hafter with h | h <;> rw [h] <;> nofun)
  rw [KeepsBounds, BoundsFit, hmin, hmax, cutBound_eq_iff, cutBound_getD_eq_iff]

/-- The tokens of `-[*4294967297]-()`. -/
def longHop : List LexedToken :=
  [⟨.dash, 0⟩, ⟨.lBracket, 1⟩, ⟨.star, 2⟩, ⟨.intLit 4294967297, 3⟩, ⟨.rBracket, 13⟩, ⟨.dash, 14⟩, ⟨.lParen, 15⟩, ⟨.rParen, 16⟩,
    ⟨.eof, 17⟩]

theorem lex_longHop : lex "-[*4294967297]-()".toList = .ok longHop := by decide +kernel

theorem parse_longHop : parseRelAndNode (fun _ => .error .exhausted) 0 (longHop.map (spanned "-[*4294967297]-()".toList)) =
    .ok ((⟨none, [], .both, [], some ⟨1, some 1⟩⟩, ⟨none, [], [], false⟩),
      [spanned "-[*4294967297]-()".toList ⟨.eof, 17⟩]) := by
  rfl

/-- A bound of 33 bits is read as one. -/
theorem long_hop_is_one_hop : ¬∀ (input : List Char) (detail : List LexedToken) (parseExpr : P Expr) (k : Nat)
    (rel : RelPattern) (node : NodePattern) (rest : List SpannedToken) (vl : VarLength), lex input = .ok detail →
      parseRelAndNode parseExpr k (detail.map (spanned input)) = .ok ((rel, node), rest) → rel.length = some vl →
        KeepsBounds input detail vl := by
  intro h
  have hmin := (h _ _ _ _ _ _ _ _ lex_longHop parse_longHop rfl).1
  exact absurd hmin (by decide +kernel)

theorem var_length_bounds_iff_long :
    KeepsBounds "-[*4294967297]-()".toList longHop ⟨1, some 1⟩ ↔ BoundsFit "-[*4294967297]-()".toList longHop :=
  @var_length_bounds_iff _ [] longHop lex_longHop _ _ _ _ _ parse_longHop _ rfl

end PgEddy
