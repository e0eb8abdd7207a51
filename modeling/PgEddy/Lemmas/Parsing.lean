import PgEddy.Surface

/-!
# What the parsers keep and where they stop

An expression with a pattern in it stays one whatever the parser makes of it (`Plain`), and the tokens after an operand say at
which level the parser goes on (`joinLevel`).
-/

namespace PgEddy

open Descent

/-! ## Expressions without patterns -/

mutual

/-- No part of the expression is a pattern or a subquery. -/
def Plain : Expr → Prop
  | .var _ | .intLit _ | .floatLit _ | .stringLit _ | .boolLit _ | .nullLit | .parameter _ | .star => True
  | .property base _ => Plain base
  | .compare left _ right | .and left right | .or left right | .xor left right | .arith left _ right => Plain left ∧ Plain right
  | .not inner | .isNull inner | .isNotNull inner | .neg inner | .hasLabel inner _ => Plain inner
  | .functionCall _ args => EachPlain args
  | .list items => EachPlain items
  | .inList left list => Plain left ∧ Plain list
  | .startsWith left right | .endsWith left right | .contains left right | .regex left right => Plain left ∧ Plain right
  | .caseSearched branches else_ => BranchesPlain branches ∧ OptPlain else_
  | .caseSimple test branches else_ => Plain test ∧ BranchesPlain branches ∧ OptPlain else_
  | .listComprehension _ listExpr predicate projection => Plain listExpr ∧ OptPlain predicate ∧ OptPlain projection
  | .listPredicate _ _ listExpr predicate => Plain listExpr ∧ Plain predicate
  | .subscript list index => Plain list ∧ Plain index
  | .listSlice listExpr from_ to_ => Plain listExpr ∧ OptPlain from_ ∧ OptPlain to_
  | .mapLiteral entries => EntriesPlain entries
  | .shortestPath .. | .patternComprehension .. | .exists_ .. => False

def EachPlain : List Expr → Prop
  | [] => True
  | e :: es => Plain e ∧ EachPlain es

def BranchesPlain : List (Expr × Expr) → Prop
  | [] => True
  | (a, b) :: branches => (Plain a ∧ Plain b) ∧ BranchesPlain branches

def EntriesPlain : List (String × Expr) → Prop
  | [] => True
  | (_, e) :: entries => Plain e ∧ EntriesPlain entries

def OptPlain : Option Expr → Prop
  | none => True
  | some e => Plain e

end

theorem eachPlain_iff (es : List Expr) : EachPlain es ↔ ∀ e ∈ es, Plain e := by
  induction es with
  | nil => simp [EachPlain]
  | cons e es ih => simp [EachPlain, ih]

theorem branchesPlain_iff (bs : List (Expr × Expr)) : BranchesPlain bs ↔ ∀ b ∈ bs, Plain b.1 ∧ Plain b.2 := by
  induction bs with
  | nil => simp [BranchesPlain]
  | cons b bs ih => simp [BranchesPlain, ih]

theorem entriesPlain_iff (es : List (String × Expr)) : EntriesPlain es ↔ ∀ e ∈ es, Plain e.2 := by
  induction es with
  | nil => simp [EntriesPlain]
  | cons e es ih => simp [EntriesPlain, ih]

theorem optPlain_iff (o : Option Expr) : OptPlain o ↔ ∀ e ∈ o, Plain e := by
  cases o <;> simp [OptPlain]

/-! ## Single tokens -/

section

variable {t : SpannedToken} {ts : List SpannedToken}

@[simp] theorem headToken_cons : headToken (t :: ts) = t.token := rfl

@[simp] theorem headToken_nil : headToken [] = .eof := rfl

@[simp] theorem peek_apply : peek ts = .ok (headToken ts, ts) := rfl

@[simp] theorem peekAt_apply (offset : Nat) : peekAt offset ts = .ok (headToken (ts.drop offset), ts) := rfl

@[simp] theorem advance_cons : advance (t :: ts) = .ok ((), ts) := rfl

theorem advance_apply : advance ts = .ok ((), ts.tail) := rfl

theorem expect_cons : expect t.token (t :: ts) = .ok ((), ts) := if_pos rfl

theorem expect_eq_ok {token : Token} {r : Unit × List SpannedToken} (h : expect token ts = .ok r) : r = ((), ts.tail) := by
  unfold expect at h
  split at h
  · exact (Except.ok.inj h).symm
  · cases h

theorem eatIdent_cons {name : String} (h : t.token = .ident name) : eatIdent (t :: ts) = .ok (name, ts) := by
  unfold eatIdent
  rw [headToken_cons, h]
  rfl

theorem eatIdentFlexible_cons (h : t.token.flexibleName.isSome) : eatIdentFlexible (t :: ts) = .ok (Surface.nameOf t, ts) := by
  obtain ⟨name, hname⟩ := Option.isSome_iff_exists.mp h
  unfold eatIdentFlexible Surface.nameOf
  rw [headToken_cons, hname]
  rfl

theorem eatMapKey_cons (h : (mapKey t).isSome) : eatMapKey (t :: ts) = .ok ((mapKey t).getD "", ts) := by
  obtain ⟨key, hkey⟩ := Option.isSome_iff_exists.mp h
  unfold eatMapKey
  rw [List.head?_cons, Option.bind_some, hkey]
  rfl

end

/-! ## Rounds -/

variable {α : Type} {starts : List SpannedToken → Bool} {item : P α} {items : List α} {ts : List SpannedToken}

theorem manyRound_some (h : starts ts = true) : manyRound starts item items ts = some (do return items ++ [← item]) := if_pos h

theorem manyRound_none (h : starts ts = false) : manyRound starts item items ts = none := by
  unfold manyRound
  rw [if_neg (by rw [h]; exact Bool.false_ne_true)]

/-- The items so far stay in the list. -/
theorem manyRound_keeps (Good : α → Prop) : RoundsKeep (fun l => ∀ a ∈ l, Good a) (manyRound starts item) := by
  intro as ts p bs r hround hp hgood a ha
  unfold manyRound at hround
  split at hround
  · cases hround
    obtain ⟨b, ts', _, hpure⟩ := bind_eq_ok.mp hp
    cases hpure
    exact hgood a (List.mem_append_left _ ha)
  · cases hround

section

variable {parseExpr : P Expr} {k : Nat} {op : Token → Option (Expr → Expr → Expr)} {operand : P Expr}

theorem opRound_keeps (hop : ∀ t mk, op t = some mk → ∀ a b, Plain (mk a b) → Plain a) : RoundsKeep Plain (opRound op operand) := by
  intro a ts p b r hround hp hgood
  unfold opRound at hround
  cases hmk : op (headToken ts) with
  | none =>
    rw [hmk] at hround
    cases hround
  | some mk =>
    rw [hmk] at hround
    cases hround
    obtain ⟨_, ts1, _, hrest⟩ := bind_eq_ok.mp hp
    obtain ⟨e, ts2, _, hpure⟩ := bind_eq_ok.mp hrest
    cases hpure
    exact hop _ mk hmk a e hgood

theorem compareRound_keeps : RoundsKeep (fun acc : Expr × Expr => Plain acc.1) (compareRound operand) := by
  intro a ts p b r hround hp hgood
  unfold compareRound at hround
  cases hop : cmpOp (headToken ts) with
  | none =>
    rw [hop] at hround
    cases hround
  | some op =>
    rw [hop] at hround
    cases hround
    obtain ⟨_, ts1, _, hrest⟩ := bind_eq_ok.mp hp
    obtain ⟨e, ts2, _, hpure⟩ := bind_eq_ok.mp hrest
    cases hpure
    exact hgood.1

/-- What brackets after an operand make of it. -/
theorem parseSubscript_keeps {e e' : Expr} {ts r : List SpannedToken} (h : parseSubscript parseExpr e ts = .ok (e', r))
    (hgood : Plain e') : Plain e := by
  unfold parseSubscript at h
  obtain ⟨t, ts1, hpeek, h⟩ := bind_eq_ok.mp h
  split at h
  · obtain ⟨_, ts2, _, h⟩ := bind_eq_ok.mp h
    obtain ⟨stop, ts3, _, h⟩ := bind_eq_ok.mp h
    obtain ⟨_, ts4, _, h⟩ := bind_eq_ok.mp h
    cases h
    exact hgood.1
  · obtain ⟨inner, ts2, _, h⟩ := bind_eq_ok.mp h
    obtain ⟨t', ts3, _, h⟩ := bind_eq_ok.mp h
    split at h
    · obtain ⟨_, ts4, _, h⟩ := bind_eq_ok.mp h
      obtain ⟨stop, ts5, _, h⟩ := bind_eq_ok.mp h
      obtain ⟨_, ts6, _, h⟩ := bind_eq_ok.mp h
      cases h
      exact hgood.1
    · obtain ⟨_, ts4, _, h⟩ := bind_eq_ok.mp h
      cases h
      exact hgood.1

theorem chainRound_keeps : RoundsKeep Plain (chainRound parseExpr k) := by
  intro e ts p e' r hround hp hgood
  unfold chainRound at hround
  split at hround
  · cases hround
    obtain ⟨_, ts1, _, hp⟩ := bind_eq_ok.mp hp
    obtain ⟨prop, ts2, _, hp⟩ := bind_eq_ok.mp hp
    obtain ⟨t, ts3, _, hp⟩ := bind_eq_ok.mp hp
    split at hp
    · obtain ⟨_, ts4, _, hp⟩ := bind_eq_ok.mp hp
      obtain ⟨args, ts5, _, hp⟩ := bind_eq_ok.mp hp
      obtain ⟨_, ts6, _, hp⟩ := bind_eq_ok.mp hp
      cases hp
      exact hgood.1
    · cases hp
      exact hgood
  · cases hround
    obtain ⟨_, ts1, _, hp⟩ := bind_eq_ok.mp hp
    exact parseSubscript_keeps hp hgood
  · split at hround
    · cases hround
      obtain ⟨labels, ts1, _, hp⟩ := bind_eq_ok.mp hp
      cases hp
      exact hgood
    · cases hround
  · cases hround

/-- What follows an operand keeps it. -/
theorem parsePropertyChain_keeps {e : Expr} {ts : List SpannedToken} {r : Expr × List SpannedToken}
    (h : parsePropertyChain parseExpr k e ts = .ok r) : Plain r.1 → Plain e := chainRound_keeps.loop h

theorem nullTest_keeps {e e' : Expr} {ts r : List SpannedToken} (h : nullTest e ts = .ok (e', r)) (hgood : Plain e') :
    Plain e := by
  unfold nullTest at h
  obtain ⟨t, ts1, _, h⟩ := bind_eq_ok.mp h
  split at h
  · obtain ⟨_, ts2, _, h⟩ := bind_eq_ok.mp h
    obtain ⟨t', ts3, _, h⟩ := bind_eq_ok.mp h
    split at h
    · obtain ⟨_, ts4, _, h⟩ := bind_eq_ok.mp h
      obtain ⟨_, ts5, _, h⟩ := bind_eq_ok.mp h
      cases h
      exact hgood
    · obtain ⟨_, ts4, _, h⟩ := bind_eq_ok.mp h
      cases h
      exact hgood
  · cases h
    exact hgood

theorem inTest_keeps {e e' : Expr} {ts r : List SpannedToken} (h : inTest operand e ts = .ok (e', r)) (hgood : Plain e') :
    Plain e := by
  unfold inTest at h
  obtain ⟨t, ts1, _, h⟩ := bind_eq_ok.mp h
  split at h
  · obtain ⟨_, ts2, _, h⟩ := bind_eq_ok.mp h
    obtain ⟨list, ts3, _, h⟩ := bind_eq_ok.mp h
    cases h
    exact hgood.1
  · cases h
    exact hgood

/-- The operators on strings keep both sides. -/
theorem stringOp_plain {word : String} {op : Bool × (Expr → Expr → Expr)} (h : stringOp word = some op) (a b : Expr) :
    Plain (op.2 a b) ↔ Plain a ∧ Plain b := by
  unfold stringOp at h
  split at h
  · cases h; rfl
  · split at h
    · cases h; rfl
    · split at h
      · cases h; rfl
      · cases h

theorem compareTests_keeps {e e' : Expr} {ts r : List SpannedToken} (h : compareTests operand k e ts = .ok (e', r))
    (hgood : Plain e') : Plain e := by
  unfold compareTests at h
  obtain ⟨t, ts1, _, h⟩ := bind_eq_ok.mp h
  split at h
  · rename_i word _
    cases hop : stringOp word with
    | none =>
      rw [hop] at h
      cases h
      exact hgood
    | some op =>
      obtain ⟨takesWith, mk⟩ := op
      rw [hop] at h
      obtain ⟨_, ts2, _, h⟩ := bind_eq_ok.mp h
      have hmk : ∀ right, Plain (mk e right) → Plain e := fun right hp => ((stringOp_plain hop e right).mp hp).1
      split at h
      · obtain ⟨_, ts3, _, h⟩ := bind_eq_ok.mp h
        obtain ⟨right, ts4, _, h⟩ := bind_eq_ok.mp h
        cases h
        exact hmk right hgood
      · obtain ⟨right, ts4, _, h⟩ := bind_eq_ok.mp h
        cases h
        exact hmk right hgood
  · obtain ⟨_, ts2, _, h⟩ := bind_eq_ok.mp h
    obtain ⟨right, ts3, _, h⟩ := bind_eq_ok.mp h
    cases h
    exact hgood.1
  · cases hop : cmpOp t with
    | none =>
      rw [hop] at h
      cases h
      exact hgood
    | some op =>
      rw [hop] at h
      obtain ⟨_, ts2, _, h⟩ := bind_eq_ok.mp h
      obtain ⟨right, ts3, _, h⟩ := bind_eq_ok.mp h
      obtain ⟨acc, ts4, hloop, h⟩ := bind_eq_ok.mp h
      cases h
      exact (compareRound_keeps.loop hloop hgood).1

end

end PgEddy
