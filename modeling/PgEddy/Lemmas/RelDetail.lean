import PgEddy.Parser

/-!
# The length of a relationship

What stands before the star of a relationship has no star in it, so the length is read behind the first star, and a property map
or the closing bracket stands behind it.
-/

namespace PgEddy

open Descent

namespace RelDetailAux

/-- The tokens behind the first star. -/
def behindStar (ts : List SpannedToken) : List SpannedToken := (ts.dropWhile fun t => t.token ≠ .star).tail

/-- The parser does not take the first star. -/
def KeepsStar {α : Type} (p : P α) : Prop := ∀ ts a ts', p ts = .ok (a, ts') → behindStar ts' = behindStar ts

variable {α β : Type} {p : P α} {q : α → P β} {t : SpannedToken} {ts ts' : List SpannedToken} {parseExpr : P Expr} {k : Nat}

/-! ## One token -/

theorem behindStar_cons (h : t.token ≠ .star) : behindStar (t :: ts) = behindStar ts := by simp [behindStar, h]

theorem behindStar_star (h : headToken ts = .star) : behindStar ts = ts.tail := by
  cases ts with
  | nil => nomatch h
  | cons t ts =>
    have ht : t.token = .star := h
    simp [behindStar, ht]

theorem behindStar_tail (h : headToken ts ≠ .star) : behindStar ts.tail = behindStar ts := by
  cases ts with
  | nil => rfl
  | cons t ts => exact (behindStar_cons h).symm

theorem KeepsStar.bind (hp : KeepsStar p) (hq : ∀ a, KeepsStar (q a)) : KeepsStar (p >>= q) := by
  intro ts b ts'' h
  obtain ⟨a, ts', hp', hq'⟩ := bind_eq_ok.mp h
  exact (hq a _ _ _ hq').trans (hp _ _ _ hp')

theorem keepsStar_pure (a : α) : KeepsStar (pure a : P α) := by
  intro ts b ts' h
  cases h
  rfl

theorem keepsStar_peek : KeepsStar peek := by
  intro ts b ts' h
  cases h
  rfl

/-- What looks at the next token first. -/
theorem keepsStar_peek_bind {q : Token → P β}
    (h : ∀ ts b ts', q (headToken ts) ts = .ok (b, ts') → behindStar ts' = behindStar ts) :
    KeepsStar (peek >>= q) := by
  intro ts b ts' hrun
  obtain ⟨a, ts'', hp, hq⟩ := bind_eq_ok.mp hrun
  cases hp
  exact h _ _ _ hq

theorem keepsStar_eatIdent : KeepsStar eatIdent := by
  intro ts a ts' h
  unfold eatIdent at h
  split at h
  · next name hname =>
    cases h
    exact behindStar_tail (by rw [hname]; nofun)
  · cases h

theorem keepsStar_eatIdentFlexible : KeepsStar eatIdentFlexible := by
  intro ts a ts' h
  unfold eatIdentFlexible at h
  split at h
  · next name hname =>
    cases h
    refine behindStar_tail fun hstar => ?_
    rw [hstar] at hname
    nomatch hname
  · cases h

theorem keepsStar_expect {token : Token} (h : token ≠ .star) : KeepsStar (expect token) := by
  intro ts a ts' hrun
  unfold expect at hrun
  split at hrun
  · next htoken =>
    cases hrun
    exact behindStar_tail (htoken ▸ h)
  · cases hrun

/-- A step over a token that is no star. -/
theorem behindStar_advance {q : P β} (hq : KeepsStar q) (h : headToken ts ≠ .star) {b : β}
    (hrun : (advance >>= fun _ => q) ts = .ok (b, ts')) : behindStar ts' = behindStar ts := by
  obtain ⟨u, ts'', hadvance, hq'⟩ := bind_eq_ok.mp hrun
  cases hadvance
  exact (hq _ _ _ hq').trans (behindStar_tail h)

/-! ## Loops -/

theorem keepsStar_loop {round : α → List SpannedToken → Option (P α)}
    (h : ∀ a ts p b ts', round a ts = some p → p ts = .ok (b, ts') → behindStar ts' = behindStar ts) (k : Nat) (a : α) :
    KeepsStar (loop .exhausted round k a) := by
  intro ts b ts' hrun
  induction k generalizing a ts with
  | zero =>
    rw [loop_zero] at hrun
    split at hrun
    · cases hrun
      rfl
    · cases hrun
  | succ k ih =>
    cases hr : round a ts with
    | none =>
      rw [loop_stop hr] at hrun
      cases hrun
      rfl
    | some p =>
      obtain ⟨k', b', ts'', hk, hp, hl⟩ := loop_eq_ok hr hrun
      cases hk
      exact (ih _ _ hl).trans (h _ _ _ _ _ hr hp)

/-- A further type of a relationship. -/
theorem behindStar_pipe {items items' : List String} {p : P (List String)}
    (hround : manyRound (at_ .pipe) (do
      advance
      if (← peek) = .colon then advance
      eatIdentFlexible) items ts = some p)
    (hrun : p ts = .ok (items', ts')) : behindStar ts' = behindStar ts := by
  unfold manyRound at hround
  split at hround
  · next hpipe =>
    cases hround
    have hpipe : headToken ts = .pipe := of_decide_eq_true hpipe
    obtain ⟨name, ts'', hitem, hpure⟩ := bind_eq_ok.mp hrun
    cases hpure
    refine behindStar_advance (keepsStar_peek_bind fun ts b ts' h => ?_) (by rw [hpipe]; nofun) hitem
    split at h
    · next hcolon => exact behindStar_advance keepsStar_eatIdentFlexible (by rw [hcolon]; nofun) h
    · exact keepsStar_eatIdentFlexible _ _ _ h
  · cases hround

/-! ## The parts of a relationship -/

/-- Two ways on that meet again. -/
theorem ite_bind_eq_ok {c : Prop} [Decidable c] {p p' : P α} {q : α → P β} {out : β × List SpannedToken}
    (h : (if c then p >>= q else p' >>= q) ts = .ok out) :
    ∃ a ts', (if c then p else p') ts = .ok (a, ts') ∧ q a ts' = .ok out := by
  split at h
  · next hc =>
    rw [if_pos hc]
    exact bind_eq_ok.mp h
  · next hc =>
    rw [if_neg hc]
    exact bind_eq_ok.mp h

theorem headToken_of_expect {token : Token} {a : Unit} (h : expect token ts = .ok (a, ts')) : headToken ts = token := by
  unfold expect at h
  split at h
  · assumption
  · cases h

/-- The variable of a relationship. -/
theorem behindStar_var {var : Option String}
    (h : (if (headToken ts).isIdent = true then some <$> eatIdent else pure none : P (Option String)) ts = .ok (var, ts')) :
    behindStar ts' = behindStar ts := by
  split at h
  · rw [map_eq_pure_bind] at h
    exact (keepsStar_eatIdent.bind fun a => keepsStar_pure _) _ _ _ h
  · exact keepsStar_pure _ _ _ _ h

/-- The types of a relationship, behind their colon. -/
theorem keepsStar_types : KeepsStar (do
    let first ← eatIdentFlexible
    many (at_ .pipe) (do
      advance
      if (← peek) = .colon then advance
      eatIdentFlexible) k [first]) :=
  keepsStar_eatIdentFlexible.bind fun first =>
    keepsStar_loop (fun _ _ _ _ _ hround hrun => behindStar_pipe hround hrun) k [first]

/-- The length of a relationship is read after its types, and a map or the bracket stands behind it. -/
theorem length_of_rest {var : Option String} {relTypes : List String} {f : RelDirection → RelPattern}
    (h : (do
        let length ← after? .star parseLength
        let properties ← if (← peek) = .lBrace then parsePropertyMap parseExpr k else pure []
        expect .rBracket
        return fun direction => ⟨var, relTypes, direction, properties, length⟩ : P (RelDirection → RelPattern)) ts =
          .ok (f, ts')) :
    ∃ len after, after? .star parseLength ts = .ok (len, after) ∧
      (headToken after = .lBrace ∨ headToken after = .rBracket) ∧ ∀ d, (f d).length = len := by
  obtain ⟨len, after, hlen, h⟩ := bind_eq_ok.mp h
  obtain ⟨_, _, hpeek, h⟩ := bind_eq_ok.mp h
  cases hpeek
  obtain ⟨properties, ts'', hprops, h⟩ := ite_bind_eq_ok h
  obtain ⟨_, _, hbracket, h⟩ := bind_eq_ok.mp h
  cases h
  refine ⟨len, after, hlen, ?_, fun d => rfl⟩
  by_cases hbrace : headToken after = .lBrace
  · exact .inl hbrace
  · rw [if_neg hbrace] at hprops
    cases hprops
    exact .inr (headToken_of_expect hbracket)

/-- A relationship in brackets: its length is read at the first star, and a map or the bracket stands behind it. -/
theorem parseRelDetail_length {f : RelDirection → RelPattern} (hstart : headToken ts = .lBracket)
    (h : parseRelDetail parseExpr k ts = .ok (f, ts')) :
    ∃ mid len after, behindStar mid = behindStar ts ∧ after? .star parseLength mid = .ok (len, after) ∧
      (headToken after = .lBrace ∨ headToken after = .rBracket) ∧ ∀ d, (f d).length = len := by
  obtain ⟨_, ts1, hadvance, h⟩ := bind_eq_ok.mp h
  cases hadvance
  obtain ⟨_, _, hpeek, h⟩ := bind_eq_ok.mp h
  cases hpeek
  obtain ⟨var, ts2, hvar, h⟩ := ite_bind_eq_ok h
  have hts2 : behindStar ts2 = behindStar ts := (behindStar_var hvar).trans (behindStar_tail (by rw [hstart]; nofun))
  obtain ⟨_, _, hpeek, h⟩ := bind_eq_ok.mp h
  cases hpeek
  split at h
  · next hcolon =>
    obtain ⟨_, ts3, hadvance, h⟩ := bind_eq_ok.mp h
    cases hadvance
    obtain ⟨first, ts4, hfirst, h⟩ := bind_eq_ok.mp h
    obtain ⟨relTypes, mid, hmany, h⟩ := bind_eq_ok.mp h
    obtain ⟨len, after, hlen, hafter, hf⟩ := length_of_rest h
    have hmid : behindStar mid = behindStar ts2.tail := keepsStar_types _ _ _ (bind_eq_ok.mpr ⟨first, ts4, hfirst, hmany⟩)
    exact ⟨mid, len, after, hmid.trans ((behindStar_tail (by rw [hcolon]; nofun)).trans hts2), hlen, hafter, hf⟩
  · obtain ⟨len, after, hlen, hafter, hf⟩ := length_of_rest h
    exact ⟨ts2, len, after, hts2, hlen, hafter, hf⟩

/-- A length of a star: it is read behind the star. -/
theorem parseLength_of_after? {vl : VarLength} (h : after? .star parseLength ts = .ok (some vl, ts')) :
    parseLength (behindStar ts) = .ok (vl, ts') := by
  obtain ⟨_, _, hpeek, h⟩ := bind_eq_ok.mp h
  cases hpeek
  split at h
  · next hstar =>
    obtain ⟨_, _, hadvance, h⟩ := bind_eq_ok.mp h
    cases hadvance
    obtain ⟨vl', ts'', hlen, hpure⟩ := bind_eq_ok.mp h
    cases hpure
    rwa [behindStar_star hstar]
  · cases h

/-- What stands behind the arrow of a relationship. -/
theorem length_of_detail {leftArrow : Bool} {rel : RelPattern} {node : NodePattern} {vl : VarLength}
    (hvl : rel.length = some vl)
    (h : (do
        expect .dash
        let rel ← if (← peek) = .lBracket then parseRelDetail parseExpr k
          else pure fun direction => ⟨none, [], direction, [], none⟩
        expect .dash
        let rightArrow := (← peek) == .rArrow
        if rightArrow then advance
        let direction := match leftArrow, rightArrow with
          | false, true => RelDirection.out
          | true, false => .in_
          | _, _ => .both
        let node ← parseNodePattern parseExpr k
        return (rel direction, node) : P (RelPattern × NodePattern)) ts = .ok ((rel, node), ts')) :
    ∃ after, parseLength (behindStar ts) = .ok (vl, after) ∧ (headToken after = .lBrace ∨ headToken after = .rBracket) := by
  obtain ⟨_, ts1, hdash, h⟩ := bind_eq_ok.mp h
  obtain ⟨_, _, hpeek, h⟩ := bind_eq_ok.mp h
  cases hpeek
  obtain ⟨f, ts2, hdetail, h⟩ := ite_bind_eq_ok h
  obtain ⟨d, hrel⟩ : ∃ d, rel = f d := by
    obtain ⟨_, ts3, _, h⟩ := bind_eq_ok.mp h
    obtain ⟨_, _, hpeek, h⟩ := bind_eq_ok.mp h
    split at h
    · obtain ⟨_, _, _, h⟩ := bind_eq_ok.mp h
      obtain ⟨_, _, _, h⟩ := bind_eq_ok.mp h
      cases h
      exact ⟨_, rfl⟩
    · obtain ⟨_, _, _, h⟩ := bind_eq_ok.mp h
      cases h
      exact ⟨_, rfl⟩
  rw [hrel] at hvl
  split at hdetail
  · next hbracket =>
    obtain ⟨mid, len, after, hmid, hlen, hafter, hf⟩ := parseRelDetail_length hbracket hdetail
    rw [hf d] at hvl
    rw [hvl] at hlen
    refine ⟨after, ?_, hafter⟩
    rw [← keepsStar_expect (show Token.dash ≠ .star by nofun) _ _ _ hdash, ← hmid]
    exact parseLength_of_after? hlen
  · cases hdetail
    nomatch hvl

/-- A relationship with a length has brackets, and its length is read behind the first star. -/
theorem parseRelAndNode_length {rel : RelPattern} {node : NodePattern} {vl : VarLength} (hvl : rel.length = some vl)
    (h : parseRelAndNode parseExpr k ts = .ok ((rel, node), ts')) :
    ∃ after, parseLength (behindStar ts) = .ok (vl, after) ∧ (headToken after = .lBrace ∨ headToken after = .rBracket) := by
  obtain ⟨_, _, hpeek, h⟩ := bind_eq_ok.mp h
  cases hpeek
  split at h
  · next harrow =>
    obtain ⟨_, _, hadvance, h⟩ := bind_eq_ok.mp h
    cases hadvance
    rw [← behindStar_tail (by rw [beq_iff_eq.mp harrow]; nofun)]
    exact length_of_detail hvl h
  · exact length_of_detail hvl h

end RelDetailAux

end PgEddy
