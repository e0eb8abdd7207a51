import PgEddy.Lemmas.Projections

/-!
# The sides of a union

`UNION` stands to the right: the parser reads the rest of the query as one query and refuses it if its own `UNION` is of the other
kind, the planner compares the columns of neighbours, and the executor appends the rows of the right side to those of the left one
and drops rows it has seen. A chain of sides is deduplicated as a whole.
-/

namespace PgEddy

open Fallible FirstSeen

/-! ## Parsing -/

/-- A query of clauses with what is behind its `UNION`, if that is of the same kind. -/
def unionQuery (clauses : List QueryClause) (all : Bool) : Query → Except String Query
  | right@(.mk _ (some (rightAll, _))) =>
    if rightAll ≠ all then .error "SyntaxError::InvalidClauseComposition: cannot mix UNION and UNION ALL"
    else .ok (.mk clauses (some (all, right)))
  | right => .ok (.mk clauses (some (all, right)))

/-- The query of sides, each with whether `UNION ALL` follows it, and of a last side. -/
def unionQueries : List (List QueryClause × Bool) → List QueryClause → Except String Query
  | [], last => .ok (.mk last none)
  | (clauses, all) :: sides, last => do unionQuery clauses all (← unionQueries sides last)

/-! ## Planning -/

/-- The name of a column as the check of unions takes it. -/
def returnColumnName (item : ReturnItem) : String :=
  match item.alias_ with
  | some alias_ => alias_
  | none =>
    match item.expr with
    | .var v => v
    | .property _ k => k
    | _ => "_col"

/-- The columns of the last `RETURN`. -/
def returnColumnNames (clauses : List QueryClause) : Option (List String) :=
  clauses.reverse.findSome? fun
    | .return_ _ items _ _ _ => some (items.map returnColumnName)
    | _ => none

/-- The plan of a query, of plans of its sides. -/
inductive UnionPlan (π : Type) where
  | single (plan : π)
  | union (left : π) (right : UnionPlan π) (all : Bool)

/-- Names as `{:?}` shows them. -/
def debugNames (names : List String) : String := "[" ++ ", ".intercalate (names.map String.quote) ++ "]"

def differentColumns (left right : List String) : PlanError :=
  ⟨"SyntaxError::DifferentColumnsInUnion: columns " ++ debugNames left ++ " and " ++ debugNames right ++ " differ"⟩

/-- The check of two neighbours. -/
def checkUnionColumns (left right : List QueryClause) : Except PlanError Unit :=
  match returnColumnNames left, returnColumnNames right with
  | some lc, some rc => if lc ≠ rc then .error (differentColumns lc rc) else .ok ()
  | _, _ => .ok ()

section

variable {π : Type} (planSingle : List QueryClause → Except PlanError π)

def planUnion : Query → Except PlanError (UnionPlan π)
  | .mk clauses none => do return .single (← planSingle clauses)
  | .mk clauses (some (all, right@(.mk rightClauses _))) => do
    let left ← planSingle clauses
    checkUnionColumns clauses rightClauses
    return .union left (← planUnion right) all

variable {E : Engine} (P : ProjectionParts E) (execute : π → Exec (List (Row E.ch)))

def executeUnion : UnionPlan π → Exec (List (Row E.ch))
  | .single plan => execute plan
  | .union left right all => do
    let leftRows ← execute left
    let rightRows ← executeUnion right
    return if all then leftRows ++ rightRows else retainNew (rowFingerprint P) (leftRows ++ rightRows) []

end

/-- The sides of a chain, with the last one. -/
def sideClauses (sides : List (List QueryClause × Bool)) (last : List QueryClause) : List (List QueryClause) :=
  sides.map Prod.fst ++ [last]

namespace UnionAux

/-! ## Parsed queries -/

/-- The query of a chain that is not refused. -/
def chainQuery : List (List QueryClause × Bool) → List QueryClause → Query
  | [], last => .mk last none
  | (clauses, all) :: sides, last => .mk clauses (some (all, chainQuery sides last))

/-- A chain is parsed if its `UNION`s are of one kind. -/
theorem unionQueries_eq_ok {sides : List (List QueryClause × Bool)} {last : List QueryClause} {q : Query}
    (h : unionQueries sides last = .ok q) : q = chainQuery sides last ∧ ∃ all, ∀ s ∈ sides, s.2 = all := by
  induction sides generalizing q with
  | nil =>
    refine ⟨(Except.ok.inj h).symm, true, fun s hs => ?_⟩
    simp at hs
  | cons side sides ih =>
    obtain ⟨clauses, all⟩ := side
    obtain ⟨right, hright, h⟩ := bind_eq_ok.mp h
    obtain ⟨rfl, kind, hkind⟩ := ih hright
    cases sides with
    | nil =>
      refine ⟨(Except.ok.inj h).symm, all, fun s hs => ?_⟩
      rw [List.mem_singleton.mp hs]
    | cons next sides =>
      obtain ⟨nextClauses, nextAll⟩ := next
      obtain rfl : nextAll = kind := hkind _ List.mem_cons_self
      rw [chainQuery, unionQuery] at h
      by_cases hne : nextAll ≠ all
      · rw [if_pos hne] at h
        cases h
      · rw [if_neg hne] at h
        rw [not_not] at hne
        refine ⟨(Except.ok.inj h).symm, all, fun s hs => ?_⟩
        obtain rfl | hs := List.mem_cons.mp hs
        · rfl
        · rw [hkind s hs, hne]

/-! ## Plans -/

variable {π : Type} {planSingle : List QueryClause → Except PlanError π} {E : Engine} {P : ProjectionParts E}
  {execute : π → Exec (List (Row E.ch))}

theorem checkUnionColumns_eq_ok {left right : List QueryClause} (h : checkUnionColumns left right = .ok ()) {lc rc : List String}
    (hl : returnColumnNames left = some lc) (hr : returnColumnNames right = some rc) : lc = rc := by
  rw [checkUnionColumns, hl, hr] at h
  dsimp only at h
  by_cases hne : lc ≠ rc
  · rw [if_pos hne] at h
    cases h
  · exact not_not.mp hne

/-- The sides of a chain that is planned have the columns of the first one. -/
theorem columns_of_planUnion {sides : List (List QueryClause × Bool)} {last : List QueryClause} {names : List String}
    (hreturn : ∀ clauses ∈ sideClauses sides last, returnColumnNames clauses ≠ none) :
    ∀ {p : UnionPlan π}, planUnion planSingle (chainQuery sides last) = .ok p →
      (sideClauses sides last).head?.bind returnColumnNames = some names →
      ∀ clauses ∈ sideClauses sides last, returnColumnNames clauses = some names := by
  induction sides with
  | nil =>
    intro p _ hnames clauses hclauses
    rw [List.mem_singleton.mp hclauses]
    exact hnames
  | cons side sides ih =>
    intro p h hnames clauses hclauses
    obtain ⟨first, all⟩ := side
    have hrest : ∀ clauses ∈ sideClauses sides last, returnColumnNames clauses ≠ none :=
      fun clauses hclauses => hreturn clauses (List.mem_cons_of_mem _ hclauses)
    obtain ⟨next, rest, hnext⟩ : ∃ next rest, sideClauses sides last = next :: rest := by
      cases sides <;> exact ⟨_, _, rfl⟩
    have hquery : ∃ u, chainQuery sides last = .mk next u := by
      cases sides with
      | nil =>
        obtain rfl := (List.cons.inj hnext).1
        exact ⟨_, rfl⟩
      | cons s sides =>
        obtain rfl := (List.cons.inj hnext).1
        exact ⟨_, rfl⟩
    obtain ⟨u, hu⟩ := hquery
    obtain ⟨nextNames, hnextNames⟩ := Option.ne_none_iff_exists'.mp (hrest next (hnext ▸ List.mem_cons_self))
    rw [chainQuery, hu, planUnion] at h
    obtain ⟨left, -, h⟩ := bind_eq_ok.mp h
    obtain ⟨_, hcheck, h⟩ := bind_eq_ok.mp h
    obtain ⟨right, hright, -⟩ := bind_eq_ok.mp h
    have hsame := checkUnionColumns_eq_ok hcheck hnames hnextNames
    rw [← hu] at hright
    obtain rfl | hclauses := List.mem_cons.mp hclauses
    · exact hnames
    · refine ih hrest hright ?_ clauses hclauses
      rw [hnext, hsame]
      exact hnextNames

/-- The rows of a chain of one kind. -/
theorem rows_of_executeUnion {sides : List (List QueryClause × Bool)} {last : List QueryClause} {all : Bool}
    (hall : ∀ s ∈ sides, s.2 = all) :
    ∀ {p : UnionPlan π} {out : List (Row E.ch)}, planUnion planSingle (chainQuery sides last) = .ok p →
      executeUnion P execute p = .ok out →
      ∃ rowss, List.Forall₂ (fun clauses rows => ∃ plan, planSingle clauses = .ok plan ∧ execute plan = .ok rows)
          (sideClauses sides last) rowss ∧
        out = if sides.all Prod.snd then rowss.flatten else retainNew (rowFingerprint P) rowss.flatten [] := by
  induction sides with
  | nil =>
    intro p out hplan hrun
    rw [chainQuery, planUnion] at hplan
    obtain ⟨plan, hside, hp⟩ := bind_eq_ok.mp hplan
    obtain rfl := Except.ok.inj hp
    exact ⟨[out], .cons ⟨plan, hside, hrun⟩ .nil, by simp⟩
  | cons side sides ih =>
    intro p out hplan hrun
    obtain ⟨clauses, kind⟩ := side
    have hkind : kind = all := hall _ List.mem_cons_self
    have hrest : ∀ s ∈ sides, s.2 = all := fun s hs => hall s (List.mem_cons_of_mem _ hs)
    subst hkind
    obtain ⟨left, hleft, right, hright, hp⟩ : ∃ left, planSingle clauses = .ok left ∧
        ∃ right, planUnion planSingle (chainQuery sides last) = .ok right ∧ .union left right kind = p := by
      rw [chainQuery] at hplan
      cases hq : chainQuery sides last with
      | mk rightClauses union =>
        rw [hq, planUnion] at hplan
        obtain ⟨left, hleft, hplan⟩ := bind_eq_ok.mp hplan
        obtain ⟨-, -, hplan⟩ := bind_eq_ok.mp hplan
        obtain ⟨right, hright, hp⟩ := bind_eq_ok.mp hplan
        exact ⟨left, hleft, right, hright, Except.ok.inj hp⟩
    subst hp
    obtain ⟨leftRows, hleftRows, hrun⟩ := bind_eq_ok.mp hrun
    obtain ⟨rightRows, hrightRows, hout⟩ := bind_eq_ok.mp hrun
    obtain ⟨rowss, hrowss, rfl⟩ := ih hrest hright hrightRows
    refine ⟨leftRows :: rowss, .cons ⟨left, hleft, hleftRows⟩ hrowss, ?_⟩
    rw [← Except.ok.inj hout, List.flatten_cons, List.all_cons]
    cases kind with
    | true =>
      have hsides : sides.all Prod.snd = true := List.all_eq_true.mpr hrest
      simp [hsides]
    | false =>
      -- What the right side dropped would be dropped here.
      simp only [Bool.false_eq_true, if_false, Bool.false_and]
      split
      · rfl
      · exact retainNew_append_retainNew leftRows rowss.flatten

end UnionAux

open UnionAux

end PgEddy
