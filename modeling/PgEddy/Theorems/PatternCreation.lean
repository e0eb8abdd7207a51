import PgEddy.Lemmas.Calls
import PgEddy.Lemmas.Changes
import PgEddy.Lemmas.Rows

/-!
# Creating a pattern

What `CREATE` has to make of a pattern can be told from the pattern and the nodes that the row binds: a node for every element
without a variable and for every variable that is not bound, and a relationship for every arrow. The code creates the node at
the end of an arrow before the arrow, and skips that node when it comes to it.
-/

namespace PgEddy

open Recorded Write RowAux CallAux

variable {ch : Chrono}

/-! ## What a pattern asks for -/

/-- A node that is to be created, or a relationship between two nodes. -/
inductive Thing where
  | node (n : NodePattern) (nodeId : Int64)
  | edge (r : RelPattern) (edgeId source target : Int64)

/-- A thing with the values of its properties. -/
abbrev MadeThing := Thing × List (String × Json)

namespace Thing

def var : Thing → Option String
  | .node n _ => n.var
  | .edge r _ _ _ => r.var

def properties : Thing → List (String × Expr)
  | .node n _ => n.properties
  | .edge r _ _ _ => r.properties

/-- What a variable of the thing is bound to. -/
def value (props : List (String × Json)) : Thing → Value ch
  | .node n nodeId => .node nodeId n.labels props
  | .edge r edgeId source target => .edge edgeId (r.relTypes.head?.getD "RELATED_TO") source target props

/-- The node in the storage. -/
def storedNode : MadeThing → Option (Int64 × NodeEntry)
  | (.node n nodeId, props) => some (nodeId, ⟨n.labels, storedFields props⟩)
  | _ => none

/-- The relationship in the storage. -/
def storedEdge : MadeThing → Option RelRecord
  | (.edge r edgeId source target, props) =>
    some ⟨edgeId, r.relTypes.head?.getD "RELATED_TO", source, target, storedFields props⟩
  | _ => none

end Thing

/-- The ids of the nodes that variables stand for. -/
abbrev KnownNodes := String → Option Int64

/-- The nodes that a row binds. -/
def knownNodes (row : Row ch) : KnownNodes := fun x => row[x]?.bind Value.nodeId

/-- A variable of a node, if it has one, stands for a node. -/
def KnownNodes.learn (known : KnownNodes) (var : Option String) (nodeId : Int64) : KnownNodes :=
  fun x => if var = some x then some nodeId else known x

/-- The relationship between two adjacent nodes, oriented by its arrow. -/
def arrow (r : RelPattern) (edgeId before after : Int64) : Thing :=
  if r.direction = .in_ then .edge r edgeId after before else .edge r edgeId before after

/-- What is to be made of the relationships after a node, each with the node after it. Ids are taken from the sequences. -/
def hopThings : KnownNodes → Nat → Nat → Int64 → List (RelPattern × NodePattern) → List Thing
  | _, _, _, _, [] => []
  | known, nodeSeq, edgeSeq, last, (r, n) :: hops =>
    match n.var.bind known with
    | some nodeId => arrow r (Int64.ofNat (edgeSeq + 1)) last nodeId :: hopThings known nodeSeq (edgeSeq + 1) nodeId hops
    | none =>
      let nodeId := Int64.ofNat (nodeSeq + 1)
      .node n nodeId :: arrow r (Int64.ofNat (edgeSeq + 1)) last nodeId ::
        hopThings (known.learn n.var nodeId) (nodeSeq + 1) (edgeSeq + 1) nodeId hops

/-- What is to be made of a pattern. -/
def patternThings (known : KnownNodes) (nodeSeq edgeSeq : Nat) (first : NodePattern) (hops : List (RelPattern × NodePattern)) :
    List Thing :=
  match first.var.bind known with
  | some nodeId => hopThings known nodeSeq edgeSeq nodeId hops
  | none =>
    let nodeId := Int64.ofNat (nodeSeq + 1)
    .node first nodeId :: hopThings (known.learn first.var nodeId) (nodeSeq + 1) edgeSeq nodeId hops

/-- The elements of a chain of nodes and relationships. -/
def chainElements (first : NodePattern) (hops : List (RelPattern × NodePattern)) : List PatternElement :=
  .node first :: hops.flatMap fun h => [.relationship h.1, .node h.2]

/-- A variable of one of the nodes. -/
def IsNodeVar (first : NodePattern) (hops : List (RelPattern × NodePattern)) (x : String) : Prop :=
  first.var = some x ∨ ∃ h ∈ hops, h.2.var = some x

/-- A variable of one of the relationships. -/
def IsRelVar (hops : List (RelPattern × NodePattern)) (x : String) : Prop := ∃ h ∈ hops, h.1.var = some x

/-! ## What is made -/

/-- The row with what has been made bound. -/
def rowAfter (row : Row ch) (made : List MadeThing) : Row ch :=
  made.foldl (fun row m => bindOpt row m.1.var (m.1.value m.2)) row

/-- The nodes and relationships are the old ones and those that have been made. -/
structure Adds (db db' : Db) (made : List MadeThing) : Prop where
  nodes : db'.nodes = db.nodes ++ made.filterMap Thing.storedNode
  edges : db'.edges = db.edges ++ made.filterMap Thing.storedEdge

/-- The values of the properties are those of their expressions, in the row and the database as they were when the thing was
made. -/
def Evaluated (W : World ch) (params : Params) (row : Row ch) (db : Db) (made : List MadeThing) : Prop :=
  ∀ before m after, made = before ++ m :: after → ∃ s log, Adds db s.db before ∧
    (evalProps W m.1.properties (rowAfter row before) params (s, log)).1 = .ok m.2

/-- The pattern has been created: what it asks for has been made and nothing else, and every variable stands for what was made
for it or what it was bound to. -/
structure Built (W : World ch) (pathVar : Option String) (first : NodePattern) (hops : List (RelPattern × NodePattern))
    (row : Row ch) (params : Params) (db db' : Db) (row' : Row ch) (made : List MadeThing) : Prop where
  things : made.map Prod.fst = patternThings (knownNodes row) db.nodeSeq db.edgeSeq first hops
  adds : Adds db db' made
  evaluated : Evaluated W params row db made
  boundNodes : ∀ x, IsNodeVar first hops x → row[x]?.isSome → row'[x]? = row[x]?
  newNodes : ∀ x, IsNodeVar first hops x → row[x]? = none →
    ∃ n nodeId props, (.node n nodeId, props) ∈ made ∧ n.var = some x ∧ row'[x]? = some ((Thing.node n nodeId).value props)
  rels : ∀ x, IsRelVar hops x → ∃ r edgeId source target props,
    (.edge r edgeId source target, props) ∈ made ∧ r.var = some x ∧
      row'[x]? = some ((Thing.edge r edgeId source target).value props)
  others : ∀ x, ¬ IsNodeVar first hops x → ¬ IsRelVar hops x → pathVar ≠ some x → row'[x]? = row[x]?

/-- No variable stands for two kinds of things. -/
structure NamesApart (pathVar : Option String) (first : NodePattern) (hops : List (RelPattern × NodePattern)) : Prop where
  rels : ∀ x, IsNodeVar first hops x → ¬ IsRelVar hops x
  path : ∀ x, pathVar = some x → ¬ IsNodeVar first hops x ∧ ¬ IsRelVar hops x

/-! ## Making one thing -/

theorem Adds.refl (db : Db) : Adds db db [] := ⟨(List.append_nil _).symm, (List.append_nil _).symm⟩

theorem Adds.trans {db₀ db₁ db₂ : Db} {made made' : List MadeThing} (h : Adds db₀ db₁ made) (h' : Adds db₁ db₂ made') :
    Adds db₀ db₂ (made ++ made') := by
  constructor
  · rw [h'.nodes, h.nodes, List.filterMap_append, List.append_assoc]
  · rw [h'.edges, h.edges, List.filterMap_append, List.append_assoc]

variable {W : World ch} {params : Params}

theorem evalProps_still (props : List (String × Expr)) (row : Row ch) (params : Params) :
    Still (evalProps W props row params) :=
  ProgramAux.Composes.evalProps ⟨still_closed Stop.fatal⟩ props row params

theorem evalProps_eq_ok {props : List (String × Expr)} {row : Row ch} {w w' : Session × List (Change × Session)}
    {values : List (String × Json)} (h : evalProps W props row params w = (.ok values, w')) :
    w' = w ∧ (evalProps W props row params w).1 = .ok values := by
  have hw := evalProps_still (W := W) props row params w
  rw [h] at hw ⊢
  exact ⟨hw, rfl⟩

theorem change_eq_ok {c : Change} {s s' : Session} {log log' : List (Change × Session)}
    (h : Write.change W c (s, log) = (.ok (), (s', log'))) : c.run s = (s', .ok ()) := by
  unfold Write.change act at h
  simp only at h
  split at h
  · rename_i s₁ _ happly
    cases h
    exact run_of_apply happly
  · cases h

/-- The run has made these things one after another. -/
structure Made (W : World ch) (params : Params) (row : Row ch) (s : Session) (made : List MadeThing) (row' : Row ch)
    (s' : Session) : Prop where
  bound : row' = rowAfter row made
  adds : Adds s.db s'.db made
  evaluated : Evaluated W params row s.db made
  nodeSeq : s'.db.nodeSeq = s.db.nodeSeq + (made.filterMap Thing.storedNode).length
  edgeSeq : s'.db.edgeSeq = s.db.edgeSeq + (made.filterMap Thing.storedEdge).length

theorem Made.nil (row : Row ch) (s : Session) : Made W params row s [] row s where
  bound := rfl
  adds := .refl _
  evaluated := by
    intro before m after h
    simp at h
  nodeSeq := rfl
  edgeSeq := rfl

theorem Made.trans {row₀ row₁ row₂ : Row ch} {s₀ s₁ s₂ : Session} {made made' : List MadeThing}
    (h : Made W params row₀ s₀ made row₁ s₁) (h' : Made W params row₁ s₁ made' row₂ s₂) :
    Made W params row₀ s₀ (made ++ made') row₂ s₂ where
  bound := by
    rw [h'.bound, h.bound]
    exact List.foldl_append.symm
  adds := h.adds.trans h'.adds
  evaluated := by
    intro before m after heq
    rcases List.append_eq_append_iff.mp heq with ⟨more, hbefore, hmore⟩ | ⟨more, hmade, hmore⟩
    · -- a thing of the second run
      obtain ⟨s, log, hadds, hval⟩ := h'.evaluated more m after hmore
      refine ⟨s, log, hbefore ▸ h.adds.trans hadds, ?_⟩
      rw [h.bound] at hval
      rw [hbefore]
      exact (congrArg (fun r => (evalProps W m.1.properties r params (s, log)).1) List.foldl_append).trans hval
    · cases more with
      | nil =>
        obtain ⟨s, log, hadds, hval⟩ := h'.evaluated [] m after hmore.symm
        refine ⟨s, log, ?_, ?_⟩
        · have := h.adds.trans hadds
          rwa [List.append_nil, hmade, List.append_nil] at this
        · rw [h.bound, hmade, List.append_nil] at hval
          exact hval
      | cons m' more =>
        obtain ⟨rfl, -⟩ := List.cons.inj hmore
        exact h.evaluated before m more hmade
  nodeSeq := by rw [h'.nodeSeq, h.nodeSeq, List.filterMap_append, List.length_append, Nat.add_assoc]
  edgeSeq := by rw [h'.edgeSeq, h.edgeSeq, List.filterMap_append, List.length_append, Nat.add_assoc]

/-- One thing is made in a row. -/
theorem Made.single {row : Row ch} {s s' : Session} {log : List (Change × Session)} {t : Thing} {props : List (String × Json)}
    (hprops : (evalProps W t.properties row params (s, log)).1 = .ok props) (hadds : Adds s.db s'.db [(t, props)])
    (hnode : s'.db.nodeSeq = s.db.nodeSeq + ([(t, props)].filterMap Thing.storedNode).length)
    (hedge : s'.db.edgeSeq = s.db.edgeSeq + ([(t, props)].filterMap Thing.storedEdge).length) :
    Made W params row s [(t, props)] (bindOpt row t.var (t.value props)) s' where
  bound := rfl
  adds := hadds
  evaluated := by
    intro before m after heq
    rcases List.cons_eq_append_iff.mp heq with ⟨rfl, hm⟩ | ⟨before', rfl, hm⟩
    · obtain ⟨rfl, rfl⟩ := List.cons.inj hm
      exact ⟨s, log, .refl _, hprops⟩
    · simp at hm
  nodeSeq := hnode
  edgeSeq := hedge

theorem createNode_made {via : CreatePath} {n : NodePattern} {row : Row ch} {s s' : Session}
    {log log' : List (Change × Session)} {nodeId : Int64} {val : Value ch}
    (h : createNode W via n row params (s, log) = (.ok (nodeId, val), (s', log'))) :
    ∃ props, nodeId = Int64.ofNat (s.db.nodeSeq + 1) ∧ val = (Thing.node n nodeId).value props ∧
      Made W params row s [(.node n nodeId, props)] (bindOpt row n.var val) s' := by
  unfold createNode at h
  obtain ⟨props, w₁, heval, h⟩ := Recorded.bind_eq_ok h
  obtain ⟨rfl, hprops⟩ := evalProps_eq_ok heval
  obtain ⟨⟨⟩, ⟨s₂, log₂⟩, hchange, h⟩ := Recorded.bind_eq_ok h
  cases h
  obtain ⟨seq, rows, looked, hseq, rfl⟩ := Change.run_createNode (change_eq_ok hchange)
  obtain ⟨rfl, -⟩ := Db.nextval_eq_some hseq
  have hnodes : (Change.withNode via n.labels props (s.db.nodeSeq + 1) s).db.nodes =
      s.db.nodes ++ [(Int64.ofNat (s.db.nodeSeq + 1), ⟨n.labels, storedFields props⟩)] := by
    unfold Change.withNode
    split <;> rfl
  have hedges : (Change.withNode via n.labels props (s.db.nodeSeq + 1) s).db.edges = s.db.edges := by
    unfold Change.withNode
    split <;> rfl
  have hnodeSeq : (Change.withNode via n.labels props (s.db.nodeSeq + 1) s).db.nodeSeq = s.db.nodeSeq + 1 := by
    unfold Change.withNode
    split <;> rfl
  have hedgeSeq : (Change.withNode via n.labels props (s.db.nodeSeq + 1) s).db.edgeSeq = s.db.edgeSeq := by
    unfold Change.withNode
    split <;> rfl
  have hid : Db.lastNodeId { (Change.withNode via n.labels props (s.db.nodeSeq + 1) s).db with propValueIndex := rows } =
      Int64.ofNat (s.db.nodeSeq + 1) := congrArg Int64.ofNat hnodeSeq
  refine ⟨props, hid, rfl, ?_⟩
  rw [hid]
  refine .single hprops ⟨hnodes, ?_⟩ hnodeSeq hedgeSeq
  exact hedges.trans (List.append_nil _).symm

theorem createEdge_made {r : RelPattern} {row : Row ch} {s s' : Session} {log log' : List (Change × Session)}
    {source target : Int64} {props : List (String × Json)}
    (hprops : (evalProps W r.properties row params (s, log)).1 = .ok props)
    (h : Write.change W (.createEdge false (r.relTypes.head?.getD "RELATED_TO") source target props) (s, log) =
      (.ok (), (s', log'))) :
    let t := Thing.edge r (Int64.ofNat (s.db.edgeSeq + 1)) source target
    s'.db.lastEdgeId = Int64.ofNat (s.db.edgeSeq + 1) ∧
      Made W params row s [(t, props)] (bindOpt row r.var (t.value props)) s' := by
  obtain ⟨seq, hseq, -, -, rfl⟩ := Change.run_createEdge (change_eq_ok h)
  obtain ⟨rfl, -⟩ := Db.nextval_eq_some hseq
  exact ⟨rfl, .single hprops ⟨(List.append_nil _).symm, rfl⟩ rfl rfl⟩

/-! ## Making the chain -/

/-- The row binds a variable to a node exactly if the variable is known, and to that node. -/
def Agrees (known : KnownNodes) (row : Row ch) (x : String) : Prop :=
  (row[x]? = none ∧ known x = none) ∨ ∃ v nodeId, row[x]? = some v ∧ v.nodeId = some nodeId ∧ known x = some nodeId

theorem get_bindOpt (row : Row ch) (var : Option String) (v : Value ch) (x : String) :
    (bindOpt row var v)[x]? = if var = some x then some v else row[x]? := by
  cases var with
  | none => simp [bindOpt]
  | some k => simp [bindOpt, get_insert]

theorem Agrees.learn {known : KnownNodes} {row : Row ch} {x : String} (h : Agrees known row x) (n : NodePattern) (nodeId : Int64)
    (props : List (String × Json)) :
    Agrees (known.learn n.var nodeId) (bindOpt row n.var ((Thing.node n nodeId).value props)) x := by
  unfold Agrees KnownNodes.learn
  rw [get_bindOpt]
  split
  · exact .inr ⟨_, nodeId, rfl, rfl, rfl⟩
  · exact h

theorem Agrees.bindOther {known : KnownNodes} {row : Row ch} {x : String} (h : Agrees known row x) {var : Option String}
    (hvar : var ≠ some x) (v : Value ch) : Agrees known (bindOpt row var v) x := by
  unfold Agrees
  rw [get_bindOpt, if_neg hvar]
  exact h

theorem arrow_var (r : RelPattern) (edgeId before after : Int64) : (arrow r edgeId before after).var = r.var := by
  unfold arrow
  split <;> rfl

/-- A relationship takes one id of the sequence of relationships and none of that of nodes. -/
theorem Made.arrow_seqs {r : RelPattern} {edgeId before after : Int64} {props : List (String × Json)} {row row' : Row ch}
    {s s' : Session} (h : Made W params row s [(arrow r edgeId before after, props)] row' s') :
    s'.db.nodeSeq = s.db.nodeSeq ∧ s'.db.edgeSeq = s.db.edgeSeq + 1 := by
  have hnode := h.nodeSeq
  have hedge := h.edgeSeq
  unfold arrow at hnode hedge
  by_cases hdir : r.direction = .in_
  · rw [if_pos hdir] at hnode hedge
    exact ⟨hnode, hedge⟩
  · rw [if_neg hdir] at hnode hedge
    exact ⟨hnode, hedge⟩

/-- The node at the end of an arrow is there already, or is made. -/
theorem destination_made {known : KnownNodes} {n : NodePattern} {row : Row ch} {last : Int64} {s s' : Session}
    {log log' : List (Change × Session)} {dst : Int64} {st : CreateState ch}
    (hknown : ∀ x, n.var = some x → Agrees known row x)
    (h : destination W (some (.node n)) ⟨row, some last, false⟩ params (s, log) = (.ok (dst, st), (s', log'))) :
    (n.var.bind known = some dst ∧ st = ⟨row, some last, false⟩ ∧ s' = s) ∨
    ∃ props, n.var.bind known = none ∧ dst = Int64.ofNat (s.db.nodeSeq + 1) ∧
      st = ⟨bindOpt row n.var ((Thing.node n dst).value props), some dst, true⟩ ∧
      Made W params row s [(.node n dst, props)] st.row s' := by
  unfold destination at h
  simp only at h
  cases hvar : n.var with
  | none =>
    rw [hvar] at h
    obtain ⟨⟨nodeId, val⟩, ⟨s₁, log₁⟩, hcreate, h⟩ := Recorded.bind_eq_ok h
    obtain ⟨props, hid, hval, hmade⟩ := createNode_made hcreate
    cases h
    rw [hvar] at hmade
    subst hval
    exact .inr ⟨props, rfl, hid, rfl, hmade⟩
  | some x =>
    rw [hvar] at h
    rcases hknown x hvar with ⟨hfree, hunknown⟩ | ⟨v, nodeId, hbound, hid, hknows⟩
    · rw [Option.bind_some, hfree] at h
      obtain ⟨⟨nodeId, val⟩, ⟨s₁, log₁⟩, hcreate, h⟩ := Recorded.bind_eq_ok h
      obtain ⟨props, hid, hval, hmade⟩ := createNode_made hcreate
      cases h
      rw [hvar] at hmade
      subst hval
      exact .inr ⟨props, hunknown, hid, rfl, hmade⟩
    · rw [Option.bind_some, hbound, Option.map_some] at h
      simp only [hid] at h
      cases h
      exact .inl ⟨hknows, rfl, rfl⟩

/-- The relationship between a node and its destination. -/
theorem arrow_made {r : RelPattern} {st st' : CreateState ch} {s s' : Session} {log log' : List (Change × Session)}
    {last dst : Int64}
    (h : (do
      let relType := r.relTypes.head?.getD "RELATED_TO"
      let props ← evalProps W r.properties st.row params
      if r.direction = .both then fail "SyntaxError: only directed relationships are supported in CREATE"
      else
        let (source, target) := if r.direction = .in_ then (dst, last) else (last, dst)
        Write.change W (.createEdge false relType source target props)
        let w ← get
        return { st with row := bindOpt st.row r.var (.edge w.db.lastEdgeId relType source target props) } : Write _) (s, log) =
      (.ok st', (s', log'))) :
    ∃ props, let t := arrow r (Int64.ofNat (s.db.edgeSeq + 1)) last dst
      st' = { st with row := bindOpt st.row r.var (t.value props) } ∧ Made W params st.row s [(t, props)] st'.row s' := by
  obtain ⟨props, w₁, heval, h⟩ := Recorded.bind_eq_ok h
  obtain ⟨rfl, hprops⟩ := evalProps_eq_ok heval
  split at h
  · cases h
  · by_cases hdir : r.direction = .in_
    · rw [if_pos hdir] at h
      obtain ⟨⟨⟩, ⟨s₂, log₂⟩, hchange, h⟩ := Recorded.bind_eq_ok h
      cases h
      obtain ⟨hid, hmade⟩ := createEdge_made hprops hchange
      refine ⟨props, ?_⟩
      unfold arrow
      simp only [if_pos hdir, hid]
      exact ⟨rfl, hmade⟩
    · rw [if_neg hdir] at h
      obtain ⟨⟨⟩, ⟨s₂, log₂⟩, hchange, h⟩ := Recorded.bind_eq_ok h
      cases h
      obtain ⟨hid, hmade⟩ := createEdge_made hprops hchange
      refine ⟨props, ?_⟩
      unfold arrow
      simp only [if_neg hdir, hid]
      exact ⟨rfl, hmade⟩

/-- An element takes the node that its variable is bound to, or makes one. -/
theorem createNodeElement_made {single : Bool} {known : KnownNodes} {n : NodePattern} {st st' : CreateState ch} {s s' : Session}
    {log log' : List (Change × Session)} (hknown : ∀ x, n.var = some x → Agrees known st.row x)
    (h : createNodeElement W single n st params (s, log) = (.ok st', (s', log'))) :
    (∃ nodeId, n.var.bind known = some nodeId ∧ st' = ⟨st.row, some nodeId, false⟩ ∧ s' = s) ∨
    ∃ props, let nodeId := Int64.ofNat (s.db.nodeSeq + 1)
      n.var.bind known = none ∧ st' = ⟨bindOpt st.row n.var ((Thing.node n nodeId).value props), some nodeId, false⟩ ∧
        Made W params st.row s [(.node n nodeId, props)] st'.row s' := by
  unfold createNodeElement at h
  have hnew : (do
      let made ← createNode W .pattern n st.row params
      return { row := bindOpt st.row n.var made.2, lastNodeId := some made.1 } : Write (CreateState ch)) (s, log) =
        (.ok st', (s', log')) → ∃ props, let nodeId := Int64.ofNat (s.db.nodeSeq + 1)
      st' = ⟨bindOpt st.row n.var ((Thing.node n nodeId).value props), some nodeId, false⟩ ∧
        Made W params st.row s [(.node n nodeId, props)] st'.row s' := by
    intro h
    obtain ⟨⟨nodeId, val⟩, ⟨s₁, log₁⟩, hcreate, h⟩ := Recorded.bind_eq_ok h
    obtain ⟨props, rfl, rfl, hmade⟩ := createNode_made hcreate
    cases h
    exact ⟨props, rfl, hmade⟩
  cases hvar : n.var with
  | none =>
    simp only [hvar, Option.bind_none] at h
    rw [hvar] at hnew
    obtain ⟨props, hst, hmade⟩ := hnew h
    exact .inr ⟨props, rfl, hst, hmade⟩
  | some x =>
    rcases hknown x hvar with ⟨hfree, hunknown⟩ | ⟨v, nodeId, hbound, hid, hknows⟩
    · simp only [hvar, Option.bind_some, hfree, Option.bind_none] at h
      rw [hvar] at hnew
      obtain ⟨props, hst, hmade⟩ := hnew h
      exact .inr ⟨props, hunknown, hst, hmade⟩
    · simp only [hvar, Option.bind_some, hbound, hid, Option.map_some] at h
      split at h
      · cases h
      · cases h
        exact .inl ⟨nodeId, hknows, rfl, rfl⟩

/-- The relationships after a node make what they ask for. No variable of a relationship is one of the nodes' too, so that a node
that is there when its arrow is made is there when its own turn comes. -/
theorem createElements_made {hops : List (RelPattern × NodePattern)} {known : KnownNodes} {row : Row ch} {last : Int64}
    {s s' : Session} {log log' : List (Change × Session)} {st' : CreateState ch}
    (hapart : ∀ x, (∃ h ∈ hops, h.2.var = some x) → ¬ IsRelVar hops x)
    (hknown : ∀ h ∈ hops, ∀ x, h.2.var = some x → Agrees known row x)
    (h : createElements W false params false (hops.flatMap fun h => [.relationship h.1, .node h.2]) ⟨row, some last, false⟩
      (s, log) = (.ok st', (s', log'))) :
    ∃ made, made.map Prod.fst = hopThings known s.db.nodeSeq s.db.edgeSeq last hops ∧
      Made W params row s made st'.row s' := by
  induction hops generalizing known row last s log with
  | nil =>
    cases h
    exact ⟨[], rfl, .nil _ _⟩
  | cons hop hops ih =>
    obtain ⟨r, n⟩ := hop
    have hapart' : ∀ x, (∃ h ∈ hops, h.2.var = some x) → ¬ IsRelVar hops x := by
      rintro x ⟨h, hh, hx⟩ ⟨h', hh', hx'⟩
      exact hapart x ⟨h, List.mem_cons_of_mem _ hh, hx⟩ ⟨h', List.mem_cons_of_mem _ hh', hx'⟩
    have hother : ∀ h ∈ (r, n) :: hops, ∀ x, h.2.var = some x → r.var ≠ some x := fun h hh x hx hr =>
      hapart x ⟨h, hh, hx⟩ ⟨(r, n), List.mem_cons_self .., hr⟩
    rw [List.flatMap_cons, List.cons_append, List.cons_append, List.nil_append] at h
    unfold createElements at h
    simp only [Bool.false_eq_true, ↓reduceIte, List.head?_cons] at h
    obtain ⟨st₁, ⟨s₁, log₁⟩, hrel, h⟩ := Recorded.bind_eq_ok h
    unfold createRelElement at hrel
    simp only at hrel
    obtain ⟨⟨dst, st₀⟩, ⟨s₀, log₀⟩, hdst, hrel⟩ := Recorded.bind_eq_ok hrel
    obtain ⟨props, hst, hedge⟩ := arrow_made hrel
    unfold createElements at h
    rcases destination_made (fun x hx => hknown (r, n) (List.mem_cons_self ..) x hx) hdst with
      ⟨hknows, rfl, rfl⟩ | ⟨nodeProps, hunknown, hid, rfl, hnode⟩
    · -- the node is there
      subst hst
      simp only [Bool.false_and, Bool.false_eq_true, ↓reduceIte] at h
      obtain ⟨st₂, ⟨s₂, log₂⟩, helem, h⟩ := Recorded.bind_eq_ok h
      simp only at hknows
      have hagrees : ∀ v y, n.var = some y → Agrees known (bindOpt row r.var v) y := fun v y hy =>
        (hknown (r, n) (List.mem_cons_self ..) y hy).bindOther (hother (r, n) (List.mem_cons_self ..) y hy) v
      rcases createNodeElement_made (hagrees _) helem with ⟨nodeId, hknows', rfl, rfl⟩ | ⟨_, hunknown, -⟩
      swap
      · cases hknows.symm.trans hunknown
      cases hknows.symm.trans hknows'
      obtain ⟨made, hthings, hmade⟩ := ih hapart'
        (fun h hh y hy => (hknown h (List.mem_cons_of_mem _ hh) y hy).bindOther (hother h (List.mem_cons_of_mem _ hh) y hy) _) h
      refine ⟨(_, props) :: made, ?_, hedge.trans hmade⟩
      obtain ⟨hnodeSeq, hedgeSeq⟩ := hedge.arrow_seqs
      rw [List.map_cons, hthings, hnodeSeq, hedgeSeq, hopThings]
      rw [hknows]
    · -- the node is made
      subst hst
      simp only [Bool.not_false, Bool.and_self, ↓reduceIte] at h
      obtain ⟨hnodeSeq, hedgeSeq⟩ := hedge.arrow_seqs
      have hseqs : s₀.db.nodeSeq = s.db.nodeSeq + 1 ∧ s₀.db.edgeSeq = s.db.edgeSeq := ⟨hnode.nodeSeq, hnode.edgeSeq⟩
      obtain ⟨made, hthings, hmade⟩ := @ih (known.learn n.var dst) _ _ _ _ hapart' (fun h hh y hy =>
        ((hknown h (List.mem_cons_of_mem _ hh) y hy).learn n dst nodeProps).bindOther
          (hother h (List.mem_cons_of_mem _ hh) y hy) _) h
      refine ⟨(.node n dst, nodeProps) :: (_, props) :: made, ?_, (hnode.trans hedge).trans hmade⟩
      rw [List.map_cons, List.map_cons, hthings, hnodeSeq, hedgeSeq, hseqs.1, hseqs.2, hopThings]
      simp only at hunknown
      rw [hunknown, hid]

/-- The elements of a pattern make what the pattern asks for. -/
theorem pattern_made {first : NodePattern} {hops : List (RelPattern × NodePattern)} {row : Row ch} {s s' : Session}
    {log log' : List (Change × Session)} {st' : CreateState ch}
    (hapart : ∀ x, IsNodeVar first hops x → ¬ IsRelVar hops x)
    (hrow : ∀ x, IsNodeVar first hops x → ∀ v, row[x]? = some v → v.nodeId.isSome)
    (h : createElements W ((chainElements first hops).length = 1) params true (chainElements first hops) { row } (s, log) =
      (.ok st', (s', log'))) :
    ∃ made, made.map Prod.fst = patternThings (knownNodes row) s.db.nodeSeq s.db.edgeSeq first hops ∧
      Made W params row s made st'.row s' := by
  have hknown : ∀ x, IsNodeVar first hops x → Agrees (knownNodes row) row x := by
    intro x hx
    cases hv : row[x]? with
    | none => exact .inl ⟨hv, by rw [knownNodes, hv]; rfl⟩
    | some v =>
      obtain ⟨nodeId, hid⟩ := Option.isSome_iff_exists.mp (hrow x hx v hv)
      exact .inr ⟨v, nodeId, hv, hid, by rw [knownNodes, hv]; exact hid⟩
  have hhops : ∀ x, (∃ h ∈ hops, h.2.var = some x) → ¬ IsRelVar hops x := fun x hx => hapart x (.inr hx)
  unfold chainElements createElements at h
  simp only [Bool.not_true, Bool.and_false, Bool.false_eq_true, ↓reduceIte] at h
  obtain ⟨st₁, ⟨s₁, log₁⟩, hfirst, h⟩ := Recorded.bind_eq_ok h
  -- without relationships nothing is left to make
  have hsingle : ∀ {last : Int64} {known : KnownNodes}, st₁ = ⟨st₁.row, some last, false⟩ →
      (∀ h ∈ hops, ∀ x, h.2.var = some x → Agrees known st₁.row x) →
      ∃ made, made.map Prod.fst = hopThings known s₁.db.nodeSeq s₁.db.edgeSeq last hops ∧
        Made W params st₁.row s₁ made st'.row s' := by
    intro last known hst hagrees
    cases hops with
    | nil =>
      cases h
      exact ⟨[], rfl, .nil _ _⟩
    | cons hop hops =>
      rw [hst] at h
      exact createElements_made hhops hagrees h
  rcases createNodeElement_made (fun x hx => hknown x (.inl hx)) hfirst with
    ⟨nodeId, hknows, rfl, rfl⟩ | ⟨props, hunknown, hst, hnode⟩
  · obtain ⟨made, hthings, hmade⟩ := hsingle rfl fun h hh x hx => hknown x (.inr ⟨h, hh, hx⟩)
    refine ⟨made, ?_, hmade⟩
    rw [hthings, patternThings, hknows]
  · obtain ⟨made, hthings, hmade⟩ := @hsingle _ ((knownNodes row).learn first.var (Int64.ofNat (s.db.nodeSeq + 1))) (by rw [hst])
      fun h hh x hx => hst ▸ (hknown x (.inr ⟨h, hh, hx⟩)).learn first _ props
    refine ⟨(.node first _, props) :: made, ?_, hnode.trans hmade⟩
    have hseqs : s₁.db.nodeSeq = s.db.nodeSeq + 1 ∧ s₁.db.edgeSeq = s.db.edgeSeq := ⟨hnode.nodeSeq, hnode.edgeSeq⟩
    rw [List.map_cons, hthings, hseqs.1, hseqs.2, patternThings, hunknown]

/-! ## What the variables stand for -/

/-- A variable is bound to the last thing that was made for it, or stays as it is. -/
theorem rowAfter_cases (row : Row ch) (made : List MadeThing) (x : String) :
    (∃ m ∈ made, m.1.var = some x ∧ (rowAfter row made)[x]? = some (m.1.value m.2)) ∨
      ((∀ m ∈ made, m.1.var ≠ some x) ∧ (rowAfter row made)[x]? = row[x]?) := by
  induction made generalizing row with
  | nil => exact .inr ⟨by simp, rfl⟩
  | cons m made ih =>
    have hafter : rowAfter row (m :: made) = rowAfter (bindOpt row m.1.var (m.1.value m.2)) made := rfl
    rw [hafter]
    rcases ih (bindOpt row m.1.var (m.1.value m.2)) with ⟨m', hm', hvar, hget⟩ | ⟨hnone, hget⟩
    · exact .inl ⟨m', List.mem_cons_of_mem _ hm', hvar, hget⟩
    · rw [get_bindOpt] at hget
      by_cases hx : m.1.var = some x
      · rw [if_pos hx] at hget
        exact .inl ⟨m, List.mem_cons_self .., hx, hget⟩
      · rw [if_neg hx] at hget
        exact .inr ⟨List.forall_mem_cons.mpr ⟨hx, hnone⟩, hget⟩

/-- What is made of a relationship of the pattern. -/
def IsArrow (hops : List (RelPattern × NodePattern)) (t : Thing) : Prop :=
  ∃ h ∈ hops, ∃ edgeId source target, t = .edge h.1 edgeId source target

theorem arrow_eq (r : RelPattern) (edgeId before after : Int64) :
    ∃ source target, arrow r edgeId before after = .edge r edgeId source target := by
  unfold arrow
  split <;> exact ⟨_, _, rfl⟩

/-- What is unknown after a node is made was unknown before. -/
theorem KnownNodes.unknown_of_learn (known : KnownNodes) {var learnt : Option String} {nodeId : Int64}
    (h : var.bind (known.learn learnt nodeId) = none) : var.bind known = none := by
  cases var with
  | none => rfl
  | some x =>
    rw [Option.bind_some, KnownNodes.learn] at h
    split at h
    · cases h
    · exact h

/-- Only a node whose variable stands for nothing yet is asked for, and the relationships of the pattern. -/
theorem mem_hopThings {known : KnownNodes} {nodeSeq edgeSeq : Nat} {last : Int64} {hops : List (RelPattern × NodePattern)} {t : Thing}
    (ht : t ∈ hopThings known nodeSeq edgeSeq last hops) :
    IsArrow hops t ∨ ∃ h ∈ hops, ∃ nodeId, t = .node h.2 nodeId ∧ h.2.var.bind known = none := by
  induction hops generalizing known nodeSeq edgeSeq last with
  | nil => cases ht
  | cons hop hops ih =>
    obtain ⟨r, n⟩ := hop
    have harrow : ∀ {edgeId before after}, t = arrow r edgeId before after → IsArrow ((r, n) :: hops) t := by
      rintro edgeId before after rfl
      obtain ⟨source, target, heq⟩ := arrow_eq r edgeId before after
      exact ⟨(r, n), List.mem_cons_self .., edgeId, source, target, heq⟩
    have hlater : IsArrow hops t → IsArrow ((r, n) :: hops) t := by
      rintro ⟨h, hh, heq⟩
      exact ⟨h, List.mem_cons_of_mem _ hh, heq⟩
    unfold hopThings at ht
    split at ht
    · rcases List.mem_cons.mp ht with heq | ht
      · exact .inl (harrow heq)
      · rcases ih ht with hin | ⟨h, hh, nodeId, heq, hnone⟩
        · exact .inl (hlater hin)
        · exact .inr ⟨h, List.mem_cons_of_mem _ hh, nodeId, heq, hnone⟩
    · rename_i hunknown
      rcases List.mem_cons.mp ht with rfl | ht
      · exact .inr ⟨(r, n), List.mem_cons_self .., _, rfl, hunknown⟩
      rcases List.mem_cons.mp ht with heq | ht
      · exact .inl (harrow heq)
      · rcases ih ht with hin | ⟨h, hh, nodeId, heq, hnone⟩
        · exact .inl (hlater hin)
        · exact .inr ⟨h, List.mem_cons_of_mem _ hh, nodeId, heq, known.unknown_of_learn hnone⟩

/-- Every relationship is asked for. -/
theorem arrow_mem_hopThings {known : KnownNodes} {nodeSeq edgeSeq : Nat} {last : Int64} {hops : List (RelPattern × NodePattern)}
    {h : RelPattern × NodePattern} (hh : h ∈ hops) :
    ∃ edgeId source target, .edge h.1 edgeId source target ∈ hopThings known nodeSeq edgeSeq last hops := by
  induction hops generalizing known nodeSeq edgeSeq last with
  | nil => cases hh
  | cons hop hops ih =>
    obtain ⟨r, n⟩ := hop
    unfold hopThings
    rcases List.mem_cons.mp hh with rfl | hh
    · split
      · rename_i nodeId _
        obtain ⟨source, target, heq⟩ := arrow_eq r (Int64.ofNat (edgeSeq + 1)) last nodeId
        exact ⟨_, source, target, List.mem_cons.mpr (.inl heq.symm)⟩
      · obtain ⟨source, target, heq⟩ := arrow_eq r (Int64.ofNat (edgeSeq + 1)) last (Int64.ofNat (nodeSeq + 1))
        exact ⟨_, source, target, List.mem_cons_of_mem _ (List.mem_cons.mpr (.inl heq.symm))⟩
    · split
      · obtain ⟨edgeId, source, target, hin⟩ := ih hh
        exact ⟨edgeId, source, target, List.mem_cons_of_mem _ hin⟩
      · obtain ⟨edgeId, source, target, hin⟩ := ih hh
        exact ⟨edgeId, source, target, List.mem_cons_of_mem _ (List.mem_cons_of_mem _ hin)⟩

/-- A node is asked for every variable of a node that stands for nothing yet. -/
theorem node_mem_hopThings {known : KnownNodes} {nodeSeq edgeSeq : Nat} {last : Int64} {hops : List (RelPattern × NodePattern)}
    {x : String} (hx : ∃ h ∈ hops, h.2.var = some x) (hunknown : known x = none) :
    ∃ n nodeId, n.var = some x ∧ .node n nodeId ∈ hopThings known nodeSeq edgeSeq last hops := by
  induction hops generalizing known nodeSeq edgeSeq last with
  | nil => simp at hx
  | cons hop hops ih =>
    obtain ⟨r, n⟩ := hop
    unfold hopThings
    by_cases hn : n.var = some x
    · rw [hn, Option.bind_some, hunknown]
      exact ⟨n, _, hn, List.mem_cons_self ..⟩
    · have hx' : ∃ h ∈ hops, h.2.var = some x := by
        obtain ⟨h, hh, hvar⟩ := hx
        rcases List.mem_cons.mp hh with rfl | hh
        · exact absurd hvar hn
        · exact ⟨h, hh, hvar⟩
      split
      · obtain ⟨n', nodeId, hvar, hin⟩ := ih hx' hunknown
        exact ⟨n', nodeId, hvar, List.mem_cons_of_mem _ hin⟩
      · obtain ⟨n', nodeId, hvar, hin⟩ := @ih (known.learn n.var (Int64.ofNat (nodeSeq + 1))) _ _ _ hx' (by
          rw [KnownNodes.learn, if_neg hn, hunknown])
        exact ⟨n', nodeId, hvar, List.mem_cons_of_mem _ (List.mem_cons_of_mem _ hin)⟩

/-- Among the things of a pattern, a node is one of its nodes, with a variable that stands for nothing if it has one. -/
theorem mem_patternThings {known : KnownNodes} {nodeSeq edgeSeq : Nat} {first : NodePattern}
    {hops : List (RelPattern × NodePattern)} {t : Thing} (ht : t ∈ patternThings known nodeSeq edgeSeq first hops) :
    IsArrow hops t ∨ ∃ n nodeId, t = .node n nodeId ∧ n.var.bind known = none ∧ ∀ x, n.var = some x → IsNodeVar first hops x := by
  unfold patternThings at ht
  split at ht
  · rcases mem_hopThings ht with hin | ⟨h, hh, nodeId, heq, hnone⟩
    · exact .inl hin
    · exact .inr ⟨h.2, nodeId, heq, hnone, fun x hx => .inr ⟨h, hh, hx⟩⟩
  · rename_i hunknown
    rcases List.mem_cons.mp ht with rfl | ht
    · exact .inr ⟨first, _, rfl, hunknown, fun x hx => .inl hx⟩
    · rcases mem_hopThings ht with hin | ⟨h, hh, nodeId, heq, hnone⟩
      · exact .inl hin
      · exact .inr ⟨h.2, nodeId, heq, known.unknown_of_learn hnone, fun x hx => .inr ⟨h, hh, hx⟩⟩

theorem arrow_mem_patternThings {known : KnownNodes} {nodeSeq edgeSeq : Nat} {first : NodePattern}
    {hops : List (RelPattern × NodePattern)} {h : RelPattern × NodePattern} (hh : h ∈ hops) :
    ∃ edgeId source target, .edge h.1 edgeId source target ∈ patternThings known nodeSeq edgeSeq first hops := by
  unfold patternThings
  split
  · exact arrow_mem_hopThings hh
  · obtain ⟨edgeId, source, target, hin⟩ := arrow_mem_hopThings hh
    exact ⟨edgeId, source, target, List.mem_cons_of_mem _ hin⟩

theorem node_mem_patternThings {known : KnownNodes} {nodeSeq edgeSeq : Nat} {first : NodePattern}
    {hops : List (RelPattern × NodePattern)} {x : String} (hx : IsNodeVar first hops x) (hunknown : known x = none) :
    ∃ n nodeId, n.var = some x ∧ .node n nodeId ∈ patternThings known nodeSeq edgeSeq first hops := by
  unfold patternThings
  by_cases hfirst : first.var = some x
  · rw [hfirst, Option.bind_some, hunknown]
    exact ⟨first, _, hfirst, List.mem_cons_self ..⟩
  · have hhops := hx.resolve_left hfirst
    split
    · exact node_mem_hopThings hhops hunknown
    · obtain ⟨n, nodeId, hvar, hin⟩ := @node_mem_hopThings (known.learn first.var (Int64.ofNat (nodeSeq + 1))) (nodeSeq + 1) edgeSeq
        (Int64.ofNat (nodeSeq + 1)) hops x hhops (by rw [KnownNodes.learn, if_neg hfirst, hunknown])
      exact ⟨n, nodeId, hvar, List.mem_cons_of_mem _ hin⟩

/-- What the run has made is what the pattern asks for, so every variable stands for what it should. -/
theorem Made.built {pathVar : Option String} {first : NodePattern} {hops : List (RelPattern × NodePattern)} {row row' : Row ch}
    {s s' : Session} {made : List MadeThing} (hnames : NamesApart pathVar first hops)
    (hrow : ∀ x, IsNodeVar first hops x → ∀ v, row[x]? = some v → v.nodeId.isSome)
    (hthings : made.map Prod.fst = patternThings (knownNodes row) s.db.nodeSeq s.db.edgeSeq first hops)
    (h : Made W params row s made row' s') :
    Built W pathVar first hops row params s.db s'.db (bindPath ⟨pathVar, chainElements first hops⟩ (chainElements first hops) row')
      made := by
  have hthing : ∀ m ∈ made, m.1 ∈ patternThings (knownNodes row) s.db.nodeSeq s.db.edgeSeq first hops :=
    fun m hm => hthings ▸ List.mem_map_of_mem hm
  have hmade : ∀ t ∈ patternThings (knownNodes row) s.db.nodeSeq s.db.edgeSeq first hops, ∃ props, (t, props) ∈ made := by
    intro t ht
    obtain ⟨m, hm, rfl⟩ := List.mem_map.mp (hthings ▸ ht)
    exact ⟨m.2, hm⟩
  -- the path changes no variable of an element
  have hpath : ∀ x, pathVar ≠ some x → (bindPath ⟨pathVar, chainElements first hops⟩ (chainElements first hops) row')[x]? =
      (rowAfter row made)[x]? := by
    intro x hx
    unfold bindPath
    rw [h.bound]
    cases pathVar with
    | none => rfl
    | some p => exact get_insert_of_ne fun heq => hx (congrArg some heq)
  have hpathNode : ∀ x, IsNodeVar first hops x → pathVar ≠ some x := fun x hx hp => (hnames.path x hp).1 hx
  have hpathRel : ∀ x, IsRelVar hops x → pathVar ≠ some x := fun x hx hp => (hnames.path x hp).2 hx
  -- the things that a variable may stand for
  have hkinds : ∀ m ∈ made, ∀ x, m.1.var = some x →
      (IsRelVar hops x ∧ ∃ r edgeId source target, m.1 = .edge r edgeId source target) ∨
      (IsNodeVar first hops x ∧ knownNodes row x = none ∧ ∃ n nodeId, m.1 = .node n nodeId) := by
    intro m hm x hvar
    rcases mem_patternThings (hthing m hm) with ⟨hop, hhop, edgeId, source, target, heq⟩ | ⟨n, nodeId, heq, hunknown, hnode⟩
    · rw [heq] at hvar
      exact .inl ⟨⟨hop, hhop, hvar⟩, hop.1, edgeId, source, target, heq⟩
    · rw [heq] at hvar
      have hvar' : n.var = some x := hvar
      rw [hvar', Option.bind_some] at hunknown
      exact .inr ⟨hnode x hvar, hunknown, n, nodeId, heq⟩
  refine ⟨hthings, h.adds, h.evaluated, fun x hx hbound => ?_, fun x hx hfree => ?_, fun x hx => ?_, fun x hnode hrel hx => ?_⟩
  · rw [hpath x (hpathNode x hx)]
    rcases rowAfter_cases row made x with ⟨m, hm, hvar, -⟩ | ⟨-, hget⟩
    · rcases hkinds m hm x hvar with ⟨hrel, -⟩ | ⟨-, hunknown, -⟩
      · exact absurd hrel (hnames.rels x hx)
      · obtain ⟨v, hv⟩ := Option.isSome_iff_exists.mp hbound
        have hsome := hrow x hx v hv
        rw [knownNodes, hv, Option.bind_some] at hunknown
        rw [hunknown] at hsome
        cases hsome
    · exact hget
  · rw [hpath x (hpathNode x hx)]
    rcases rowAfter_cases row made x with ⟨⟨t, props⟩, hm, hvar, hget⟩ | ⟨hnone, -⟩
    · rcases hkinds _ hm x hvar with ⟨hrel, -⟩ | ⟨-, -, n, nodeId, heq⟩
      · exact absurd hrel (hnames.rels x hx)
      · obtain rfl : t = _ := heq
        exact ⟨n, nodeId, props, hm, hvar, hget⟩
    · have hunknown : knownNodes row x = none := by rw [knownNodes, hfree, Option.bind_none]
      obtain ⟨n, nodeId, hvar, hin⟩ := node_mem_patternThings hx hunknown
      obtain ⟨props, hm⟩ := hmade _ hin
      exact absurd hvar (hnone _ hm)
  · rw [hpath x (hpathRel x hx)]
    rcases rowAfter_cases row made x with ⟨⟨t, props⟩, hm, hvar, hget⟩ | ⟨hnone, -⟩
    · rcases hkinds _ hm x hvar with ⟨-, r, edgeId, source, target, heq⟩ | ⟨hnode, -⟩
      · obtain rfl : t = _ := heq
        exact ⟨r, edgeId, source, target, props, hm, hvar, hget⟩
      · exact absurd hx (hnames.rels x hnode)
    · obtain ⟨hop, hhop, hvar⟩ := hx
      obtain ⟨edgeId, source, target, hin⟩ := arrow_mem_patternThings hhop
      obtain ⟨props, hm⟩ := hmade _ hin
      exact absurd hvar (hnone _ hm)
  · rw [hpath x hx]
    rcases rowAfter_cases row made x with ⟨m, hm, hvar, -⟩ | ⟨-, hget⟩
    · rcases hkinds m hm x hvar with ⟨hrel', -⟩ | ⟨hnode', -⟩
      · exact absurd hrel' hrel
      · exact absurd hnode' hnode
    · exact hget

/-- `create_pattern_in_row` builds exactly the pattern if and only if no variable stands for two kinds of things. -/
theorem pattern_built_iff {pathVar : Option String} {first : NodePattern} {hops : List (RelPattern × NodePattern)}
    {row row' : Row ch} {s s' : Session} {log log' : List (Change × Session)}
    (hrow : ∀ x, IsNodeVar first hops x → ∀ v, row[x]? = some v → v.nodeId.isSome)
    (hrun : createPatternInRow W ⟨pathVar, chainElements first hops⟩ row params (s, log) = (.ok row', (s', log'))) :
    (∃ made, Built W pathVar first hops row params s.db s'.db row' made) ↔ NamesApart pathVar first hops := by
  unfold createPatternInRow at hrun
  obtain ⟨st, ⟨s₁, log₁⟩, helements, h⟩ := Recorded.bind_eq_ok hrun
  cases h
  constructor
  · rintro ⟨made, hbuilt⟩
    -- a variable of a node is bound to a node in the end, one of a relationship to a relationship
    have hnode : ∀ x, IsNodeVar first hops x → ∃ v : Value ch, (bindPath ⟨pathVar, chainElements first hops⟩
        (chainElements first hops) st.row)[x]? = some v ∧ v.nodeId.isSome := by
      intro x hx
      cases hv : row[x]? with
      | none =>
        obtain ⟨n, nodeId, props, -, -, hget⟩ := hbuilt.newNodes x hx hv
        exact ⟨_, hget, rfl⟩
      | some v => exact ⟨v, (hbuilt.boundNodes x hx (hv ▸ rfl)).trans hv, hrow x hx v hv⟩
    have hpath : ∀ x, pathVar = some x → ∃ nodes rels, (bindPath ⟨pathVar, chainElements first hops⟩
        (chainElements first hops) st.row)[x]? = some (.path nodes rels) := by
      rintro x rfl
      exact ⟨_, _, get_insert_self _ _ _⟩
    refine ⟨fun x hx hrel => ?_, fun x hp => ⟨fun hx => ?_, fun hrel => ?_⟩⟩
    · obtain ⟨v, hv, hsome⟩ := hnode x hx
      obtain ⟨r, edgeId, source, target, props, -, -, hget⟩ := hbuilt.rels x hrel
      cases hv.symm.trans hget
      cases hsome
    · obtain ⟨v, hv, hsome⟩ := hnode x hx
      obtain ⟨nodes, rels, hget⟩ := hpath x hp
      cases hv.symm.trans hget
      cases hsome
    · obtain ⟨r, edgeId, source, target, props, -, -, hget'⟩ := hbuilt.rels x hrel
      obtain ⟨nodes, rels, hget⟩ := hpath x hp
      cases hget'.symm.trans hget
  · intro hnames
    obtain ⟨made, hthings, hmade⟩ := pattern_made hnames.rels hrow helements
    exact ⟨made, hmade.built hnames hrow hthings⟩

/-! ### A variable of a node that is also one of a relationship -/

namespace PatternCreationAux

def nodeNamed (x : String) : NodePattern := ⟨some x, [], [], false⟩

def arrowTo (var : Option String) (relType : String) (direction : RelDirection) (x : String) : RelPattern × NodePattern :=
  (⟨var, [relType], direction, [], none⟩, nodeNamed x)

/-- The run of the creation of a pattern without a path, from an empty database and a row that binds nothing. -/
def createIn (first : NodePattern) (hops : List (RelPattern × NodePattern)) :=
  createPatternInRow World.plain ⟨none, chainElements first hops⟩ ∅ ∅ ({}, [])

end PatternCreationAux

open PatternCreationAux

/-- `(a)-[r:R]->(b)<-[:S]-(a)`. -/
theorem pattern_built_twice : ∃ row' s' log', createIn (nodeNamed "a") [arrowTo (some "r") "R" .out "b", arrowTo none "S" .in_ "a"] =
      (.ok row', (s', log')) ∧
    ((∃ made, Built World.plain none (nodeNamed "a") [arrowTo (some "r") "R" .out "b", arrowTo none "S" .in_ "a"] ∅ ∅ {} s'.db row' made) ↔
      NamesApart none (nodeNamed "a") [arrowTo (some "r") "R" .out "b", arrowTo none "S" .in_ "a"]) := by
  have hok : (createIn (nodeNamed "a") [arrowTo (some "r") "R" .out "b", arrowTo none "S" .in_ "a"]).1.toBool = true := by
    decide +kernel
  rcases hrun : createIn (nodeNamed "a") [arrowTo (some "r") "R" .out "b", arrowTo none "S" .in_ "a"] with ⟨e | row', s', log'⟩
  · rw [hrun] at hok
    cases hok
  · exact ⟨row', s', log', rfl, pattern_built_iff (by simp) hrun⟩

/-- `(b)-[b:R]->(b)`: the relationship takes the variable of the node, so the second element makes another node. -/
theorem element_makes_second_node : ∃ row' s' log', createIn (nodeNamed "b") [arrowTo (some "b") "R" .out "b"] = (.ok row', (s', log')) ∧
    s'.db.nodes.length = 2 ∧
    ¬ ∃ made, Built World.plain none (nodeNamed "b") [arrowTo (some "b") "R" .out "b"] ∅ ∅ {} s'.db row' made := by
  have hok : (createIn (nodeNamed "b") [arrowTo (some "b") "R" .out "b"]).1.toBool = true ∧
      (createIn (nodeNamed "b") [arrowTo (some "b") "R" .out "b"]).2.1.db.nodes.length = 2 := by
    decide +kernel
  rcases hrun : createIn (nodeNamed "b") [arrowTo (some "b") "R" .out "b"] with ⟨e | row', s', log'⟩
  · rw [hrun] at hok
    cases hok.1
  · rw [hrun] at hok
    refine ⟨row', s', log', rfl, hok.2, ?_⟩
    rintro ⟨made, hbuilt⟩
    have hthings : made.map Prod.fst = [.node (nodeNamed "b") 1, .edge (arrowTo (some "b") "R" .out "b").1 1 1 1] :=
      hbuilt.things
    obtain ⟨⟨t, props⟩, more, rfl, ht, hmore⟩ := List.map_eq_cons_iff.mp hthings
    obtain ⟨⟨t', props'⟩, more', rfl, ht', hmore'⟩ := List.map_eq_cons_iff.mp hmore
    obtain rfl := List.map_eq_nil_iff.mp hmore'
    obtain rfl : t = _ := ht
    obtain rfl : t' = _ := ht'
    have hnodes : s'.db.nodes = [(1, ⟨[], storedFields props⟩)] := hbuilt.adds.nodes
    have hlength : s'.db.nodes.length = 2 := hok.2
    rw [hnodes] at hlength
    cases hlength

end PgEddy
