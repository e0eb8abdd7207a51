import PgEddy.Lemmas.Readings

/-!
# Reading the parts of a written expression

Given what the parser makes of the expressions inside (`Inner`), what it makes of the lists, maps and clauses that hold them.
-/

namespace PgEddy

open Descent Surface

variable {spell : Token → String} {parseExpr : P Expr} {k : Nat} {rest : List SpannedToken}

/-- What the parser makes of the expressions of fewer than `k` tokens. -/
def Inner (spell : Token → String) (parseExpr : P Expr) (k : Nat) : Prop :=
  ∀ (s : Surface) (rest : List SpannedToken), s.Legal → (s.tokens spell).length < k → 12 < joinLevel rest →
    Outcome Plain parseExpr (s.tokens spell ++ rest) (s.Clear spell rest) s.meaning rest

/-! ## Optional parts -/

theorem after?_outcome (hpe : Inner spell parseExpr k) {t : Token} {o : Option Surface} (hl : OptLegal o)
    (hlen : (afterTokens spell t o).length ≤ k) (hrest : 12 < joinLevel rest) (ht : headToken rest ≠ t) :
    Outcome OptPlain (after? t parseExpr) (afterTokens spell t o ++ rest) (OptClear spell o rest) (optMeaning o) rest := by
  cases o with
  | none =>
    refine Outcome.after peek_apply ?_
    have hne : headToken (afterTokens spell t none ++ rest) ≠ t := ht
    rw [if_neg hne]
    exact Outcome.of_eq rfl
  | some e =>
    refine Outcome.after peek_apply ?_
    have heq : headToken (afterTokens spell t (some e) ++ rest) = t := rfl
    rw [if_pos heq]
    refine Outcome.after advance_cons ?_
    exact (hpe e rest hl hlen hrest).map fun _ => id

/-! ## Pieces

The pieces of a list, a map, a `CASE` or a label test. -/

/-- How a piece is written, what it stands for, and when nothing in it is taken for a pattern. -/
structure Piece (γ α : Type) where
  tokens : γ → List SpannedToken
  meaning : γ → α
  Clear : γ → List SpannedToken → Prop

namespace Piece

variable {γ α : Type}

/-- The piece with a token before it. -/
def behind (t : SpannedToken) (D : Piece γ α) : Piece γ α := ⟨fun x => t :: D.tokens x, D.meaning, D.Clear⟩

/-- Nothing in any of some pieces is taken for a pattern. -/
def EachClear (D : Piece γ α) : List γ → List SpannedToken → Prop
  | [], _ => True
  | x :: xs, rest => D.Clear x (xs.flatMap D.tokens ++ rest) ∧ EachClear D xs rest

theorem length_le (D : Piece γ α) (t : SpannedToken) (pieces : List γ) :
    pieces.length ≤ (pieces.flatMap (D.behind t).tokens).length := by
  induction pieces with
  | nil => exact Nat.le_refl 0
  | cons x xs ih =>
    rw [List.flatMap_cons, List.length_append, List.length_cons, behind, List.length_cons]
    exact (Nat.succ_le_succ ih).trans (by unfold behind; omega)

theorem length_le_of_mem (D : Piece γ α) {x : γ} {pieces : List γ} (h : x ∈ pieces) :
    (D.tokens x).length ≤ (pieces.flatMap D.tokens).length := by
  obtain ⟨before, after, rfl⟩ := List.append_of_mem h
  rw [List.flatMap_append, List.flatMap_cons, List.length_append, List.length_append]
  omega

variable (D : Piece γ α) {starts : List SpannedToken → Bool} {item : P α} {Good : α → Prop}

/-- A loop that collects the values of some pieces. -/
theorem many_opens {p : P (List α)} {ts : List SpannedToken} (Follows : List SpannedToken → Prop) (hrest : Follows rest) :
    ∀ (pieces : List γ) {m : Nat} {c : Prop} {acc : List α}, m + pieces.length ≤ k →
      (∀ x ∈ pieces, ∀ rest, Follows (D.tokens x ++ rest) ∧ starts (D.tokens x ++ rest) = true) →
      (∀ x ∈ pieces, ∀ rest, Follows rest → Outcome Good item (D.tokens x ++ rest) (D.Clear x rest) (D.meaning x) rest) →
      Opens (fun l => ∀ a ∈ l, Good a) .exhausted (manyRound starts item) k p ts m c acc (pieces.flatMap D.tokens ++ rest) →
      Opens (fun l => ∀ a ∈ l, Good a) .exhausted (manyRound starts item) k p ts (m + pieces.length)
        (c ∧ D.EachClear pieces rest) (acc ++ pieces.map D.meaning) rest
  | [], m, c, acc, _, _, _, h => by
    rw [List.map_nil, List.append_nil]
    exact h.congr (and_iff_left trivial)
  | x :: xs, m, c, acc, hm, hstarts, hitem, h => by
    rw [List.length_cons] at hm ⊢
    rw [List.flatMap_cons, List.append_assoc] at h
    have hfollows : Follows (xs.flatMap D.tokens ++ rest) := by
      cases xs with
      | nil => exact hrest
      | cons y ys =>
        rw [List.flatMap_cons, List.append_assoc]
        exact (hstarts y (List.mem_cons_of_mem _ List.mem_cons_self) _).1
    have hround : Outcome (fun l => ∀ a ∈ l, Good a) (do return acc ++ [← item]) (D.tokens x ++ (xs.flatMap D.tokens ++ rest))
        (D.Clear x (xs.flatMap D.tokens ++ rest)) (acc ++ [D.meaning x]) (xs.flatMap D.tokens ++ rest) :=
      (hitem x List.mem_cons_self _ hfollows).map fun a hgood =>
        hgood a (List.mem_append_right _ (List.mem_singleton.mpr rfl))
    have hstep := h.step (manyRound_keeps Good) (by omega) (manyRound_some (hstarts x List.mem_cons_self _).2) hround
    have hnext := many_opens Follows hrest xs (by omega) (fun y hy => hstarts y (List.mem_cons_of_mem _ hy))
      (fun y hy => hitem y (List.mem_cons_of_mem _ hy)) hstep
    rw [List.append_assoc, List.singleton_append, ← List.map_cons] at hnext
    exact (hnext.weaken (by omega)).congr and_assoc.symm

/-- Pieces behind a first one, with commas between them. -/
theorem commaSeparated_outcome (spell : Token → String) (x : γ) (pieces : List γ) (hrest : 12 < joinLevel rest) (hcomma : headToken rest ≠ .comma)
    (hk : pieces.length ≤ k) (hitem : ∀ y ∈ x :: pieces, ∀ rest, 12 < joinLevel rest →
      Outcome Good item (D.tokens y ++ rest) (D.Clear y rest) (D.meaning y) rest) :
    Outcome (fun l => ∀ a ∈ l, Good a) (commaSeparated item k)
      (D.tokens x ++ (pieces.flatMap (D.behind (span spell .comma)).tokens ++ rest))
      (D.Clear x (pieces.flatMap (D.behind (span spell .comma)).tokens ++ rest) ∧
        (D.behind (span spell .comma)).EachClear pieces rest)
      (D.meaning x :: pieces.map D.meaning) rest := by
  have hfollow : 12 < joinLevel (pieces.flatMap (D.behind (span spell .comma)).tokens ++ rest) := by
    cases pieces with
    | nil => exact hrest
    | cons y ys => exact (by decide : 12 < 13)
  have hstart : Opens (fun l => ∀ a ∈ l, Good a) .exhausted (manyRound (at_ .comma) (do advance; item)) k (commaSeparated item k)
      (D.tokens x ++ (pieces.flatMap (D.behind (span spell .comma)).tokens ++ rest)) 0
      (D.Clear x (pieces.flatMap (D.behind (span spell .comma)).tokens ++ rest)) [D.meaning x]
      (pieces.flatMap (D.behind (span spell .comma)).tokens ++ rest) :=
    Opens.start (f := fun a => [a]) (hitem x List.mem_cons_self _ hfollow)
      (fun a hgood => hgood a (List.mem_singleton.mpr rfl)) (manyRound_keeps Good)
  have hopens := many_opens (D.behind (span spell .comma)) (fun rest => 12 < joinLevel rest) hrest pieces (by omega)
    (fun y _ rest => ⟨(by decide : 12 < 13), rfl⟩)
    (fun y hy rest hr => Outcome.after advance_cons (hitem y (List.mem_cons_of_mem _ hy) rest hr)) hstart
  exact hopens.stop (manyRound_none (decide_eq_false hcomma))

end Piece

/-! ## Lists and maps -/

/-- Expressions as the pieces of a list. -/
def exprPiece (spell : Token → String) : Piece Surface Expr := ⟨fun s => s.tokens spell, meaning, fun s => s.Clear spell⟩

theorem meanings_eq (items : List Surface) : meanings items = items.map meaning := by
  induction items with
  | nil => rfl
  | cons item items ih => rw [meanings, ih, List.map_cons]

theorem commaTokens_eq (items : List Surface) :
    commaTokens spell items = items.flatMap ((exprPiece spell).behind (span spell .comma)).tokens := by
  induction items with
  | nil => rfl
  | cons item items ih =>
    rw [commaTokens, ih, List.flatMap_cons]
    rfl

theorem eachClear_iff (items : List Surface) :
    EachClear spell items rest ↔ ((exprPiece spell).behind (span spell .comma)).EachClear items rest := by
  induction items with
  | nil => rfl
  | cons item items ih =>
    rw [EachClear, Piece.EachClear, ih, commaTokens_eq]
    rfl

theorem eachLegal_iff (items : List Surface) : EachLegal items ↔ ∀ item ∈ items, item.Legal := by
  induction items with
  | nil => simp [EachLegal]
  | cons item items ih => simp [EachLegal, ih]

/-- One or more items, with commas between them. -/
theorem args_outcome (hpe : Inner spell parseExpr k) {item : Surface} {items : List Surface} (hl : EachLegal (item :: items))
    (hlen : (itemTokens spell (item :: items)).length < k) (hrest : 12 < joinLevel rest) (hcomma : headToken rest ≠ .comma) :
    Outcome EachPlain (commaSeparated parseExpr k) (itemTokens spell (item :: items) ++ rest)
      (EachClear spell (item :: items) rest) (meanings (item :: items)) rest := by
  have hlen' : (item.tokens spell).length + (items.flatMap ((exprPiece spell).behind (span spell .comma)).tokens).length < k := by
    simpa only [itemTokens, commaTokens_eq, List.length_append] using hlen
  have hcount := (exprPiece spell).length_le (span spell .comma) items
  have hread : Outcome (fun l => ∀ e ∈ l, Plain e) (commaSeparated parseExpr k) _ _ _ rest :=
    (exprPiece spell).commaSeparated_outcome spell item items hrest hcomma (by omega) (by
      intro y hy rest' hr
      refine hpe y rest' ((eachLegal_iff _).mp hl y hy) ?_ hr
      rcases List.mem_cons.mp hy with rfl | hy
      · omega
      · have hmem := ((exprPiece spell).behind (span spell .comma)).length_le_of_mem hy
        have hy' : (y.tokens spell).length + 1 ≤
            (items.flatMap ((exprPiece spell).behind (span spell .comma)).tokens).length := hmem
        omega)
  have hts : itemTokens spell (item :: items) ++ rest =
      item.tokens spell ++ (items.flatMap ((exprPiece spell).behind (span spell .comma)).tokens ++ rest) := by
    rw [itemTokens, commaTokens_eq, List.append_assoc]
  rw [hts, meanings_eq]
  refine ⟨fun hc => hread.reads ?_, fun hc b r hb hgood => hread.spoils (fun h => hc ?_) b r hb ((eachPlain_iff b).mp hgood)⟩
  · rw [EachClear, commaTokens_eq, eachClear_iff] at hc
    exact hc
  · rw [EachClear, commaTokens_eq, eachClear_iff]
    exact h

end PgEddy
