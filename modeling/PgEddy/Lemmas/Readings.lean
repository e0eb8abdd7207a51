import PgEddy.Lemmas.Parsing

/-!
# The levels of the expression parser

Each level reads an operand with the level below it and goes on with what follows (`parseLevel_succ`), so what a lower level reads
every higher one reads as long as nothing follows that it takes (`climb`).
-/

namespace PgEddy

open Descent Surface

/-! ## The tokens around an expression -/

/-- An expression of the level may start with the token. -/
def Token.begins (n : Nat) : Token → Bool
  | .dash => 2 ≤ n
  | .not => 9 ≤ n
  | .lParen | .lBracket | .lBrace | .case_ | .ident _ => true
  | t => t.literal.isSome

theorem Token.begins_mono {n m : Nat} (h : n ≤ m) {t : Token} (ht : t.begins n = true) : t.begins m = true := by
  cases t with
  | dash => exact decide_eq_true (Nat.le_trans (of_decide_eq_true ht) h)
  | not => exact decide_eq_true (Nat.le_trans (of_decide_eq_true ht) h)
  | _ => exact ht

theorem Token.begins_of_literal {n : Nat} {t : Token} (h : t.literal.isSome) : t.begins n = true := by
  unfold Token.begins
  split
  · cases h
  · cases h
  all_goals first | rfl | exact h

/-- The level at which the parser goes on with the tokens after an operand, 13 if it does not. -/
def joinLevel (ts : List SpannedToken) : Nat :=
  match headToken ts with
  | .lParen | .lBrace => 0
  | .dot | .lBracket => 1
  | .colon => if atLabel ts then 1 else 13
  | .caret => 3
  | .star | .slash | .percent => 4
  | .plus | .dash => 5
  | .is => 6
  | .in_ => 7
  | .eq | .neq | .lArrow | .rArrow | .le | .ge | .regexMatch => 8
  | .ident name => if (stringOp name).isSome then 8 else 13
  | .and => 10
  | .xor => 11
  | .or => 12
  | _ => 13

theorem joinLevel_op {n : Nat} {ts : List SpannedToken} (h : (opAt n (headToken ts)).isSome) : joinLevel ts = n := by
  unfold joinLevel
  generalize headToken ts = t at h ⊢
  unfold opAt at h
  split at h
  · unfold powerOp at h
    split at h
    · rfl
    · cases h
  · unfold multiplicationOp at h
    split at h
    · rfl
    · rfl
    · rfl
    · cases h
  · unfold additionOp at h
    split at h
    · rfl
    · rfl
    · cases h
  · unfold andOp at h
    split at h
    · rfl
    · cases h
  · unfold xorOp at h
    split at h
    · rfl
    · cases h
  · unfold orOp at h
    split at h
    · rfl
    · cases h
  · cases h

theorem joinLevel_cmp {ts : List SpannedToken} (h : (cmpOp (headToken ts)).isSome) : joinLevel ts = 8 := by
  unfold joinLevel
  generalize headToken ts = t at h ⊢
  unfold cmpOp at h
  split at h <;> first | rfl | cases h

variable (spell : Token → String)

/-- A written expression is some tokens, of which the first may start one of its level. -/
theorem tokens_begin : ∀ (s : Surface), s.Legal → ∃ t ts, s.tokens spell = t :: ts ∧ t.token.begins s.level = true
  | .literal t, hs => ⟨t, [], rfl, Token.begins_of_literal hs⟩
  | .minInt, _ => ⟨_, _, rfl, rfl⟩
  | .var _, _ => ⟨_, _, rfl, rfl⟩
  | .paren _, _ => ⟨_, _, rfl, rfl⟩
  | .list _, _ => ⟨_, _, rfl, rfl⟩
  | .map _, _ => ⟨_, _, rfl, rfl⟩
  | .call .., _ => ⟨_, _, rfl, rfl⟩
  | .callStar _, _ => ⟨_, _, rfl, rfl⟩
  | .callDistinct .., _ => ⟨_, _, rfl, rfl⟩
  | .listPredicate .., _ => ⟨_, _, rfl, rfl⟩
  | .filter .., _ => ⟨_, _, rfl, rfl⟩
  | .extract .., _ => ⟨_, _, rfl, rfl⟩
  | .comprehension .., _ => ⟨_, _, rfl, rfl⟩
  | .caseSearched .., _ => ⟨_, _, rfl, rfl⟩
  | .caseSimple .., _ => ⟨_, _, rfl, rfl⟩
  | .property base _, hs => left base hs.1 hs.2.1
  | .method base _ _, hs => left base hs.1 hs.2.1
  | .subscript base _, hs => left base hs.1 hs.2.1
  | .slice base _ _, hs => left base hs.1 hs.2.1
  | .hasLabel base _, hs => left base hs.1 hs.2.1
  | .neg _, _ => ⟨_, _, rfl, rfl⟩
  | .binary _ _ l _, hs => left l hs.2.1 hs.2.2.1
  | .isNull inner, hs => left inner hs.1 (Nat.le_succ_of_le hs.2)
  | .isNotNull inner, hs => left inner hs.1 (Nat.le_succ_of_le hs.2)
  | .inList l _, hs => left l hs.1 (Nat.le_succ_of_le hs.2.1)
  | .stringTest _ l _, hs => left l hs.2.1 (Nat.le_succ_of_le hs.2.2.1)
  | .regex l _, hs => left l hs.1 (Nat.le_succ_of_le hs.2.1)
  | .compare l _ _ _, hs => left l hs.2.1 (Nat.le_succ_of_le hs.2.2.1)
  | .not _, _ => ⟨_, _, rfl, rfl⟩
where
  /-- The first token is the one of the left operand. -/
  left (l : Surface) (hl : l.Legal) {n : Nat} {more : List SpannedToken} (hn : l.level ≤ n) :
      ∃ t ts, l.tokens spell ++ more = t :: ts ∧ t.token.begins n = true := by
    obtain ⟨t, ts, htokens, ht⟩ := tokens_begin l hl
    exact ⟨t, ts ++ more, by rw [htokens]; rfl, Token.begins_mono hn ht⟩

theorem begins_tokens {s : Surface} (hs : s.Legal) (rest : List SpannedToken) :
    (headToken (s.tokens spell ++ rest)).begins s.level = true := by
  obtain ⟨t, ts, htokens, ht⟩ := tokens_begin spell s hs
  rw [htokens]
  exact ht

theorem tokens_pos {s : Surface} (hs : s.Legal) : 0 < (s.tokens spell).length := by
  obtain ⟨t, ts, htokens, -⟩ := tokens_begin spell s hs
  rw [htokens]
  exact Nat.succ_pos _

theorem level_bounds : ∀ {s : Surface}, s.Legal → 1 ≤ s.level ∧ s.level ≤ 12 := by
  intro s hs
  cases s with
  | binary n op l r =>
    have hop : (opAt n op).isSome := hs.1
    unfold opAt at hop
    change 1 ≤ n ∧ n ≤ 12
    split at hop
    all_goals first | omega | cases hop
  | _ => simp [level]

/-- An expression does not start with a token that none of any level starts with. -/
theorem head_ne {s : Surface} (hs : s.Legal) {t : Token} (ht : t.begins 12 = false) (rest : List SpannedToken) :
    headToken (s.tokens spell ++ rest) ≠ t := by
  intro h
  have hbegin := Token.begins_mono (level_bounds hs).2 (begins_tokens spell hs rest)
  rw [h, ht] at hbegin
  cases hbegin

/-! ## Levels -/

section

variable (parseQuery : P Query) (parseExpr : P Expr) (k : Nat)

/-- The parsers of expressions by their levels. -/
def parseLevel : Nat → P Expr
  | 0 | 1 => parsePrimary parseQuery parseExpr k
  | 2 => parseUnary parseQuery parseExpr k
  | 3 => parsePower parseQuery parseExpr k
  | 4 => parseMultiplication parseQuery parseExpr k
  | 5 => parseAddition parseQuery parseExpr k
  | 6 => parseIsNull parseQuery parseExpr k
  | 7 => parseInlist parseQuery parseExpr k
  | 8 => parseComparison parseQuery parseExpr k
  | 9 => parseNot parseQuery parseExpr k
  | 10 => parseAnd parseQuery parseExpr k
  | 11 => parseXor parseQuery parseExpr k
  | _ => parseOr parseQuery parseExpr k

/-- What a level does after its operand. -/
def tailAt : Nat → Expr → P Expr
  | 6 => nullTest
  | 7 => inTest (parseLevel parseQuery parseExpr k 6)
  | 8 => compareTests (parseLevel parseQuery parseExpr k 7) k
  | 2 | 9 => pure
  | n => loop .exhausted (opRound (opAt n) (parseLevel parseQuery parseExpr k (n - 1))) k

end

variable {parseQuery : P Query} {parseExpr : P Expr} {k n : Nat} {ts rest : List SpannedToken} {e : Expr} {c : Prop}

theorem parseUnaryOn_operand {primary : P Expr} (h : headToken ts ≠ .dash) : parseUnaryOn primary ts = primary ts := by
  cases ts with
  | nil => rfl
  | cons t ts => exact if_neg h

theorem parseNotOn_operand {comparison : P Expr} (h : headToken ts ≠ .not) : parseNotOn comparison ts = comparison ts := by
  cases ts with
  | nil => rfl
  | cons t ts => exact if_neg h

theorem bind_pure_apply {p : P Expr} : (p >>= pure) ts = p ts := by
  cases h : p ts with
  | error x => exact bind_error h
  | ok r => exact bind_ok h

/-- A level reads an operand with the level below it and goes on. -/
theorem parseLevel_succ (h1 : 1 ≤ n) (h12 : n < 12) (hts : (headToken ts).begins n = true) :
    parseLevel parseQuery parseExpr k (n + 1) ts =
      (parseLevel parseQuery parseExpr k n >>= tailAt parseQuery parseExpr k (n + 1)) ts := by
  match n with
  | 0 => omega
  | 1 =>
    have hdash : headToken ts ≠ .dash := by
      intro h
      rw [h] at hts
      cases hts
    exact (parseUnaryOn_operand hdash).trans bind_pure_apply.symm
  | 2 => rfl
  | 3 => rfl
  | 4 => rfl
  | 5 => rfl
  | 6 => rfl
  | 7 => rfl
  | 8 =>
    have hnot : headToken ts ≠ .not := by
      intro h
      rw [h] at hts
      cases hts
    exact (parseNotOn_operand hnot).trans bind_pure_apply.symm
  | 9 => rfl
  | 10 => rfl
  | 11 => rfl
  | n + 12 => omega

theorem opRound_none {op : Token → Option (Expr → Expr → Expr)} {operand : P Expr} (h : op (headToken ts) = none) :
    opRound op operand e ts = none := by
  unfold opRound
  rw [h]
  rfl

/-- An operator of a higher level, and everything that is no operator, ends a chain. -/
theorem opAt_none (h : n < joinLevel ts) : opAt n (headToken ts) = none := by
  cases hop : opAt n (headToken ts) with
  | none => rfl
  | some mk =>
    have hjoin : joinLevel ts = n := joinLevel_op (by rw [hop]; rfl)
    omega

theorem cmpOp_none (h : 8 < joinLevel ts) : cmpOp (headToken ts) = none := by
  cases hop : cmpOp (headToken ts) with
  | none => rfl
  | some op =>
    have hjoin : joinLevel ts = 8 := joinLevel_cmp (by rw [hop]; rfl)
    omega

theorem headToken_ne {t : Token} {ts : List SpannedToken} (hn : n < joinLevel ts)
    (ht : headToken ts = t → joinLevel ts ≤ n) : headToken ts ≠ t := fun h => absurd hn (Nat.not_lt.mpr (ht h))

theorem nullTest_stop (h : 6 < joinLevel ts) : nullTest e ts = .ok (e, ts) := by
  have his : headToken ts ≠ .is := headToken_ne h fun ht => by unfold joinLevel; rw [ht]
  unfold nullTest
  rw [bind_ok peek_apply, if_neg his]
  rfl

theorem inTest_stop {operand : P Expr} (h : 7 < joinLevel ts) : inTest operand e ts = .ok (e, ts) := by
  have hin : headToken ts ≠ .in_ := headToken_ne h fun ht => by unfold joinLevel; rw [ht]
  unfold inTest
  rw [bind_ok peek_apply, if_neg hin]
  rfl

theorem compareTests_stop {operand : P Expr} (h : 8 < joinLevel ts) : compareTests operand k e ts = .ok (e, ts) := by
  have hregex : headToken ts ≠ .regexMatch := headToken_ne h fun ht => by unfold joinLevel; rw [ht]
  have hcmp := cmpOp_none h
  unfold compareTests
  rw [bind_ok peek_apply]
  have hword : ∀ word, headToken ts = .ident word → stringOp word = none := by
    intro word hword
    unfold joinLevel at h
    rw [hword] at h
    by_contra hne
    have h8 : 8 < if (stringOp word).isSome then 8 else 13 := h
    rw [if_pos (Option.isSome_iff_ne_none.mpr hne)] at h8
    omega
  generalize headToken ts = t at hregex hcmp hword
  split
  · rw [hword _ rfl]
    rfl
  · exact absurd rfl hregex
  · rw [hcmp]
    rfl

theorem tailAt_stop (h : n < joinLevel ts) : tailAt parseQuery parseExpr k n e ts = .ok (e, ts) := by
  unfold tailAt
  split
  · exact nullTest_stop h
  · exact inTest_stop h
  · exact compareTests_stop h
  · rfl
  · rfl
  · exact loop_stop (opRound_none (opAt_none h))

/-- The operators that group to the left keep both sides. -/
theorem opAt_plain {op : Token} {mk : Expr → Expr → Expr} (h : opAt n op = some mk) (a b : Expr) :
    Plain (mk a b) ↔ Plain a ∧ Plain b := by
  unfold opAt at h
  split at h
  · unfold powerOp at h
    split at h <;> cases h
    rfl
  · unfold multiplicationOp at h
    split at h <;> cases h <;> rfl
  · unfold additionOp at h
    split at h <;> cases h <;> rfl
  · unfold andOp at h
    split at h <;> cases h
    rfl
  · unfold xorOp at h
    split at h <;> cases h
    rfl
  · unfold orOp at h
    split at h <;> cases h
    rfl
  · cases h

theorem opAt_keeps {operand : P Expr} : RoundsKeep Plain (opRound (opAt n) operand) :=
  opRound_keeps fun _ _ h a b hp => ((opAt_plain h a b).mp hp).1

theorem tailAt_keeps {e' : Expr} {r : List SpannedToken} (h : tailAt parseQuery parseExpr k n e ts = .ok (e', r))
    (hgood : Plain e') : Plain e := by
  unfold tailAt at h
  split at h
  · exact nullTest_keeps h hgood
  · exact inTest_keeps h hgood
  · exact compareTests_keeps h hgood
  · cases h
    exact hgood
  · cases h
    exact hgood
  · exact opAt_keeps.loop h hgood

/-- What a level makes of some tokens, the next one makes of them, unless it goes on. -/
theorem climb (h1 : 1 ≤ n) (h12 : n < 12) (hts : (headToken ts).begins n = true) (hrest : n + 1 < joinLevel rest)
    (h : Outcome Plain (parseLevel parseQuery parseExpr k n) ts c e rest) :
    Outcome Plain (parseLevel parseQuery parseExpr k (n + 1)) ts c e rest := by
  have hstop : tailAt parseQuery parseExpr k (n + 1) e rest = .ok (e, rest) := tailAt_stop hrest
  have hbind := (Outcome.bind h (Outcome.of_eq hstop) fun _ _ _ _ => tailAt_keeps).congr (and_iff_left trivial).symm
  refine ⟨fun hc => ?_, fun hc b r hb => hbind.spoils hc b r ?_⟩
  · rw [parseLevel_succ h1 h12 hts]
    exact hbind.reads hc
  · rw [← parseLevel_succ h1 h12 hts]
    exact hb

end PgEddy
