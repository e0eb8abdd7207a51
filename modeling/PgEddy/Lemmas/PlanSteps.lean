import PgEddy.Lemmas.Names
import PgEddy.Lemmas.Rows

/-!
# One step of the planner

What planning one relationship and the node after it does to the state of the planner.
-/

namespace PgEddy

open RowAux

variable {ch : Chrono} {scope : PatternScope} {s t : PatternPlan ch} {rel : RelPattern} {next : NodePattern}

/-- The variable of the node after a relationship. -/
def hopDst (scope : PatternScope) (i : Nat) (next : NodePattern) (s : PatternPlan ch) : String :=
  nodeVar next ("_anon_n" ++ toString (i + 1)) (scope.bound ++ s.newNodeVars)

/-! ## The names of a relationship -/

@[simp] theorem enterRel_plan (relVar : Option String) (counter : Nat) :
    (enterRel scope s rel relVar counter).plan = s.plan := by cases relVar <;> rfl

@[simp] theorem enterRel_newNodeVars (relVar : Option String) (counter : Nat) :
    (enterRel scope s rel relVar counter).newNodeVars = s.newNodeVars := by cases relVar <;> rfl

@[simp] theorem enterRel_anonRelCounter (relVar : Option String) (counter : Nat) :
    (enterRel scope s rel relVar counter).anonRelCounter = counter := by cases relVar <;> rfl

@[simp] theorem enterRel_lastNodeVar (relVar : Option String) (counter : Nat) :
    (enterRel scope s rel relVar counter).lastNodeVar = s.lastNodeVar := by cases relVar <;> rfl

/-- A variable that was not known stands for a relationship. -/
theorem get_enterRel_kinds {relVar : Option String} (hfresh : ∀ x, relVar = some x → s.kinds[x]? = none) (counter : Nat)
    (x : String) : (enterRel scope s rel relVar counter).kinds[x]? = if relVar = some x then some .rel else s.kinds[x]? := by
  cases relVar with
  | none => rfl
  | some rv =>
    have hnew : s.kinds[rv]?.isNone := by rw [hfresh rv rfl]; rfl
    change (if s.kinds[rv]?.isNone then s.kinds.insert rv .rel else s.kinds)[x]? = _
    simp only [if_pos hnew, get_insert, Option.some.injEq]

theorem enterRel_newRelVars {relVar : Option String} (hfresh : ∀ x, relVar = some x → s.kinds[x]? = none) (counter : Nat) :
    (enterRel scope s rel relVar counter).newRelVars =
      s.newRelVars ++ (relVar.filter fun rv => rel.var.isSome || startsWith "_anon_rel_" rv).toList := by
  cases relVar with
  | none => exact (List.append_nil _).symm
  | some rv =>
    have hnew : s.kinds[rv]?.isNone := by rw [hfresh rv rfl]; rfl
    change s.newRelVars ++ (if s.kinds[rv]?.isNone && _ then [rv] else []) = _
    rw [hnew, Bool.true_and, Option.filter_some]
    split <;> rfl

/-- The name of a relationship of a first clause: that of the pattern if it is new, else one that the planner makes. -/
theorem relVarName_cases (hbound : scope.bound = []) {v : Option String × Nat} (hv : relVarName scope s rel = .ok v) :
    (∃ rv, rel.var = some rv ∧ v = (some rv, s.anonRelCounter) ∧ (s.kinds[rv]? = none ∨ s.kinds[rv]? = some .rel) ∧
      rv ∉ s.newRelVars) ∨
    (rel.var = none ∧ v =
      if scope.isNamed then (some (pathRel s.anonRelCounter), s.anonRelCounter + 1)
      else if scope.tracksAnonymous && rel.length.isNone then (some (anonRel s.anonRelCounter), s.anonRelCounter + 1)
      else (none, s.anonRelCounter)) := by
  unfold relVarName at hv
  have hlist : ∀ rv, isPreboundList scope.bound s.kinds rv = false := by
    intro rv
    simp [isPreboundList, hbound]
  split at hv
  · rename_i rv hrv
    refine .inl ⟨rv, hrv, ?_⟩
    rw [hlist, Bool.and_false, Bool.not_false, Bool.true_and] at hv
    split at hv
    · cases hv
    · rename_i hkind
      split at hv
      · cases hv
      · rename_i hnew
        refine ⟨(Except.ok.inj hv).symm, ?_, hnew⟩
        cases hk : s.kinds[rv]? with
        | none => exact .inl rfl
        | some k =>
          rw [hk] at hkind
          simp only [Option.any_some, decide_not, Bool.not_eq_true', decide_eq_false_iff_not, not_not] at hkind
          exact .inr (by rw [hkind])
  · rename_i hrv
    refine .inr ⟨hrv, ?_⟩
    split at hv
    · rename_i hn
      rw [if_pos hn, Except.ok.inj hv]
    · rename_i hn
      rw [if_neg hn]
      split at hv
      · rename_i ht
        rw [if_pos ht, Except.ok.inj hv]
      · rename_i ht
        rw [if_neg ht, Except.ok.inj hv]

theorem enterRel_elementVars (hnamed : scope.isNamed = true) {rv : String} (counter : Nat) :
    (enterRel scope s rel (some rv) counter).elementVars = s.elementVars ++ [elementRelVar rel rv] := by
  change s.elementVars ++ (if scope.isNamed then _ else _) = _
  rw [if_pos hnamed]

/-! ## The node after it -/

theorem enterNode_newNodeVars (hbound : scope.bound = []) (dstVar : String) :
    (enterNode scope s dstVar).newNodeVars = s.newNodeVars ++ if dstVar ∉ s.newNodeVars then [dstVar] else [] := by
  change s.newNodeVars ++ (if dstVar ∉ scope.bound ∧ dstVar ∉ s.newNodeVars then [dstVar] else []) = _
  rw [hbound]
  simp only [List.not_mem_nil, not_false_eq_true, true_and]

theorem get_enterNode_kinds (dstVar : String) (x : String) :
    (enterNode scope s dstVar).kinds[x]? =
      if dstVar ∉ scope.bound ∧ dstVar ∉ s.newNodeVars then (if dstVar = x then some .node else s.kinds[x]?)
      else s.kinds[x]? := by
  unfold enterNode
  dsimp only
  split
  · rw [get_insert]
  · rfl

/-- The state after a relationship and its node. -/
theorem planHop_cases {i : Nat} (h : planHop scope i rel next s = .ok t) :
    ∃ v, relVarName scope s rel = .ok v ∧
      checkNodeKind next (hopDst scope i next s) (enterRel scope s rel v.1 v.2).kinds = .ok () ∧
      t = { enterNode scope (enterRel scope s rel v.1 v.2) (hopDst scope i next s) with
        plan := planRel scope i rel next v.1 (enterNode scope (enterRel scope s rel v.1 v.2) (hopDst scope i next s)).kinds
          s.lastNodeVar (hopDst scope i next s) s.plan
        lastNodeVar := hopDst scope i next s } := by
  unfold planHop at h
  cases hv : relVarName scope s rel with
  | error e => simp only [hv, bind, Except.bind, reduceCtorEq] at h
  | ok v =>
    obtain ⟨relVar, counter⟩ := v
    simp only [hv, bind, Except.bind, enterRel_newNodeVars] at h
    refine ⟨_, rfl, ?_⟩
    cases hc : checkNodeKind next (hopDst scope i next s) (enterRel scope s rel relVar counter).kinds with
    | error e =>
      unfold hopDst at hc
      simp only [hc, reduceCtorEq] at h
    | ok u =>
      unfold hopDst at hc
      simp only [hc, pure, Except.pure, Except.ok.injEq] at h
      exact ⟨rfl, h.symm⟩

/-- A node of a pattern does not take the variable of a relationship. -/
theorem checkNodeKind_ne_rel {dstVar : String} {kinds : VarKinds} (h : checkNodeKind next dstVar kinds = .ok ())
    (hvar : next.var.isSome) : kinds[dstVar]? ≠ some .rel := by
  unfold checkNodeKind at h
  intro hk
  rw [if_pos ⟨hvar, .inl hk⟩] at h
  cases h

end PgEddy
