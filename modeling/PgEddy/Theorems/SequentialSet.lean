import PgEddy.Api
import PgEddy.Lemmas.Dependence
import PgEddy.Lemmas.Changes
import PgEddy.Lib.Alike

/-!
# `SET` in turn

The items of a `SET` are to be applied one after another, each to what the ones before have left. The code keeps copies of the
nodes and relationships in its rows. It takes the values of the items from the copies, and new properties of a relationship
from its copy too; an item changes the copy of its own variable in its own row. The effect is that of the items applied in turn
if every copy that an item reads is as stored.
-/

namespace PgEddy

variable {ch : Chrono} (W : World ch)

/-! ## Copies as they are stored -/

namespace Db

/-- A node or a relationship as it is stored, without properties if it is not. -/
def currentEntity (db : Db) : Value ch → Value ch
  | .node nodeId _ _ => (db.findNode nodeId).elim (.node nodeId [] []) fun r => .node nodeId r.labels r.properties
  | .edge edgeId relType source target _ =>
    (db.findEdge edgeId).elim (.edge edgeId relType source target []) fun e =>
      .edge edgeId e.relType e.source e.target e.properties
  | v => v

mutual

/-- The nodes and relationships in a list or a map as they are stored. -/
def currentJson (ch : Chrono) (db : Db) : Json → Json
  | .array items => .array (currentItems ch db items)
  | .object fields =>
    match (objectValue fields : Value ch) with
    | .json _ => .object (currentFields ch db fields)
    | v => (db.currentEntity v).toJson
  | v => v

def currentItems (ch : Chrono) (db : Db) : List Json → List Json
  | [] => []
  | v :: items => currentJson ch db v :: currentItems ch db items

def currentFields (ch : Chrono) (db : Db) : List (String × Json) → List (String × Json)
  | [] => []
  | (k, v) :: fields => (k, currentJson ch db v) :: currentFields ch db fields

end

/-- A value with its nodes and relationships as they are stored. -/
def current (db : Db) : Value ch → Value ch
  | .path nodes rels => .path (nodes.map db.currentEntity) (rels.map db.currentEntity)
  | .json v => .json (currentJson ch db v)
  | v => db.currentEntity v

/-- A row with its nodes and relationships as they are stored. -/
def currentRow (db : Db) (row : Row ch) : Row ch := row.map fun _ v => db.current v

end Db

/-! ## The items in turn -/

/-- Every item in every row, over the row as it is stored when its turn comes. -/
def setRowsInTurn (items : List SetItem) (rows : List (Row ch)) (params : Params) : Write Unit :=
  rows.forM fun row => do
    let row ← injectParams row params
    items.forM fun item => do
      let s ← Recorded.get
      let _ ← setItem W item (s.db.currentRow row) params

/-! ## What an item reads -/

/-- The expression of an item. -/
def itemValue? : SetItem → Option Expr
  | .property _ value => some value
  | .var _ value => some value
  | .mergeMap _ value => some value
  | .label _ _ => none

/-- The variable whose properties an item makes new ones from. -/
def itemBase? : SetItem → Option String
  | .property (.property (.var var) _) _ => some var
  | .mergeMap var _ => some var
  | _ => none

/-- The copies that an item reads are as stored: those of the variables that the value of its expression depends on, and that
of a relationship that it makes new properties of from the old ones. -/
structure ReadsCurrent (item : SetItem) (row : Row ch) (db : Db) : Prop where
  value : ∀ e ∈ itemValue? item, ∃ V, DependsOn (W.engine (W.graph db)).engine V e ∧
    ∀ x, V x → ∀ v ∈ row[x]?, db.current v = v
  base : ∀ x ∈ itemBase? item, ∀ edgeId relType source target props, row[x]? = some (.edge edgeId relType source target props) →
    db.current (.edge edgeId relType source target props : Value ch) = .edge edgeId relType source target props

/-- Every item in a row reads current copies, in the row and the state that the items before it leave. -/
def ItemsReadCurrent (params : Params) : List SetItem → Row ch → Session × List (Change × Session) → Prop
  | [], _, _ => True
  | item :: items, row, w => ReadsCurrent W item row w.1.db ∧
    ∀ row' w', setItem W item row params w = (.ok row', w') → ItemsReadCurrent params items row' w'

/-- Every item in every row reads current copies, in the row and the state that the rows and the items before it leave. -/
def RowsReadCurrent (items : List SetItem) (params : Params) : List (Row ch) → Session × List (Change × Session) → Prop
  | [], _ => True
  | row :: rows, w => ∀ r w', injectParams row params w = (.ok r, w') → ItemsReadCurrent W params items r w' ∧
    ∀ row' w'', items.foldlM (fun row item => setItem W item row params) r w' = (.ok row', w'') →
      RowsReadCurrent items params rows w''

namespace SetAux

open Recorded Write

variable {W}

/-! ## Current copies -/

/-- Two rows have copies of the same nodes and relationships, and the same other values. -/
def SameEntities (row row' : Row ch) : Prop := ∀ (db : Db) (x : String), (row[x]?).map db.current = (row'[x]?).map db.current

theorem get_currentRow (db : Db) (row : Row ch) (x : String) : (db.currentRow row)[x]? = (row[x]?).map db.current :=
  RowAux.get_map _ row x

/-- Rows of the same nodes and relationships are the same as they are stored. -/
theorem SameEntities.currentRow {row row' : Row ch} (h : SameEntities row row') (db : Db) :
    db.currentRow row = db.currentRow row' := by
  apply Std.ExtTreeMap.ext_getElem?
  intro x
  rw [get_currentRow, get_currentRow, h db x]

theorem SameEntities.trans {row row' row'' : Row ch} (h : SameEntities row row') (h' : SameEntities row' row'') :
    SameEntities row row'' := by
  intro db x
  rw [h db x, h' db x]

/-- A copy in its place does not change what a row has copies of. -/
theorem sameEntities_insert {row : Row ch} {x : String} {v v' : Value ch} (hget : row[x]? = some v)
    (hcurrent : ∀ db : Db, db.current v' = db.current v) : SameEntities (row.insert x v') row := by
  intro db y
  rw [RowAux.get_insert]
  split
  · rename_i heq
    subst heq
    rw [hget, Option.map_some, Option.map_some, hcurrent]
  · rfl

theorem current_mapProps (db : Db) (f : List (String × Json) → List (String × Json)) (v : Value ch) :
    db.current (mapProps f v) = db.current v := by
  cases v <;> rfl

theorem current_mapLabels (db : Db) (f : List String → List String) (v : Value ch) :
    db.current (mapLabels f v) = db.current v := by
  cases v <;> rfl

theorem sameEntities_updateRow (row : Row ch) (var : String) (f : List (String × Json) → List (String × Json)) :
    SameEntities (updateRow row var f) row := by
  unfold updateRow
  split
  · rename_i v hv
    exact sameEntities_insert hv fun db => current_mapProps db f v
  · intro db x
    rfl

theorem sameEntities_updateLabels (row : Row ch) (var : String) (f : List String → List String) :
    SameEntities (updateLabels row var f) row := by
  unfold updateLabels
  split
  · rename_i v hv
    exact sameEntities_insert hv fun db => current_mapLabels db f v
  · intro db x
    rfl

theorem current_node (ch : Chrono) (db : Db) (nodeId : Int64) (labels : List String) (props : List (String × Json)) :
    ∃ labels' props', db.current (.node nodeId labels props : Value ch) = .node nodeId labels' props' := by
  simp only [Db.current, Db.currentEntity]
  cases db.findNode nodeId with
  | none => exact ⟨[], [], rfl⟩
  | some r => exact ⟨r.labels, r.properties, rfl⟩

theorem current_edge (ch : Chrono) (db : Db) (edgeId : Int64) (relType : String) (source target : Int64) (props : List (String × Json)) :
    ∃ relType' source' target' props', db.current (.edge edgeId relType source target props : Value ch) =
      .edge edgeId relType' source' target' props' := by
  simp only [Db.current, Db.currentEntity]
  cases db.findEdge edgeId with
  | none => exact ⟨relType, source, target, [], rfl⟩
  | some e => exact ⟨e.relType, e.source, e.target, e.properties, rfl⟩

/-! ## One item -/

variable {item : SetItem} {row : Row ch} {params : Params} {w : Session × List (Change × Session)}

theorem isNullVar_currentRow (db : Db) (row : Row ch) (var : String) :
    isNullVar (db.currentRow row) var = isNullVar row var := by
  unfold isNullVar
  rw [get_currentRow]
  cases row[var]? with
  | none => rfl
  | some v =>
    cases v with
    | node nodeId labels props =>
      obtain ⟨_, _, h⟩ := current_node ch db nodeId labels props
      rw [Option.map_some, h]
    | edge edgeId relType source target props =>
      obtain ⟨_, _, _, _, h⟩ := current_edge ch db edgeId relType source target props
      rw [Option.map_some, h]
    | _ => rfl

theorem nodeIdFromRow_currentRow (db : Db) (row : Row ch) (var : String) :
    nodeIdFromRow (db.currentRow row) var = nodeIdFromRow row var := by
  unfold nodeIdFromRow
  rw [get_currentRow]
  cases row[var]? with
  | none => rfl
  | some v =>
    cases v with
    | node nodeId labels props =>
      obtain ⟨_, _, h⟩ := current_node ch db nodeId labels props
      rw [Option.map_some, h]
    | edge edgeId relType source target props =>
      obtain ⟨_, _, _, _, h⟩ := current_edge ch db edgeId relType source target props
      rw [Option.map_some, h]
    | _ => rfl

/-- The value of an expression is the same over current copies of what it depends on. -/
theorem eval_currentRow (h : ReadsCurrent W item row w.1.db) {e : Expr} (he : e ∈ itemValue? item) :
    eval W e row params w = eval W e (w.1.db.currentRow row) params w := by
  obtain ⟨V, hdepends, hcurrent⟩ := h.value e he
  have hagree : ∀ x, V x → row[x]? = (w.1.db.currentRow row)[x]? := by
    intro x hx
    rw [get_currentRow]
    cases hget : row[x]? with
    | none => rfl
    | some v => rw [Option.map_some, hcurrent x hx v hget]
  exact congrArg (fun r => ofExec r w) (hdepends params row (w.1.db.currentRow row) hagree)

/-- New properties are assigned alike when those of a relationship come out the same from its current copy. -/
theorem alike_assignProps (db : Db) (row : Row ch) (var : String) (f : List (String × Json) → List (String × Json))
    (hf : ∀ edgeId relType source target props relType' source' target' props',
      row[var]? = some (.edge edgeId relType source target props) →
      db.current (.edge edgeId relType source target props : Value ch) = .edge edgeId relType' source' target' props' →
      f props' = f props) (w : Session × List (Change × Session)) :
    Alike (fun row' _ => SameEntities row' row) (assignProps W row var f) (assignProps W (db.currentRow row) var f) w := by
  have hnode : Alike (fun row' _ => SameEntities row' row)
      (do let nodeId ← nodeIdFromRow row var
          let r ← loadNode nodeId
          Write.change W (.setProps nodeId (f r.properties))
          return updateRow row var f)
      (do let nodeId ← nodeIdFromRow (db.currentRow row) var
          let r ← loadNode nodeId
          Write.change W (.setProps nodeId (f r.properties))
          return updateRow (db.currentRow row) var f) w := by
    rw [nodeIdFromRow_currentRow]
    apply Alike.bind_same
    intro nodeId w₁ _
    apply Alike.bind_same
    intro r w₂ _
    apply Alike.bind_same
    intro _ w₃ _
    exact Alike.pure (sameEntities_updateRow row var f)
  unfold assignProps
  rw [get_currentRow]
  cases hget : row[var]? with
  | none => exact hnode
  | some v =>
    cases v with
    | edge edgeId relType source target props =>
      obtain ⟨relType', source', target', props', hcurrent⟩ := current_edge ch db edgeId relType source target props
      rw [Option.map_some, hcurrent]
      simp only
      rw [hf _ _ _ _ _ _ _ _ _ hget hcurrent]
      apply Alike.bind_same
      intro _ w₁ _
      exact Alike.pure (sameEntities_updateRow row var f)
    | node nodeId labels props =>
      obtain ⟨_, _, hcurrent⟩ := current_node ch db nodeId labels props
      rw [Option.map_some, hcurrent]
      exact hnode
    | _ => exact hnode

/-- An item that reads current copies does over its row what it does over the row as it is stored. -/
theorem alike_setItem (h : ReadsCurrent W item row w.1.db) :
    Alike (fun row' _ => SameEntities row' row) (setItem W item row params) (setItem W item (w.1.db.currentRow row) params) w := by
  have hsame : ∀ w', Alike (fun row' _ => SameEntities row' row) (return row : Write (Row ch))
      (return w.1.db.currentRow row : Write (Row ch)) w' := fun _ => Alike.pure fun _ _ => rfl
  have hbase : ∀ x ∈ itemBase? item, ∀ f : List (String × Json) → List (String × Json),
      ∀ edgeId relType source target props relType' source' target' props',
        row[x]? = some (.edge edgeId relType source target props) →
        w.1.db.current (.edge edgeId relType source target props : Value ch) = .edge edgeId relType' source' target' props' →
        f props' = f props := by
    intro x hx f edgeId relType source target props relType' source' target' props' hget hcurrent
    cases (h.base x hx _ _ _ _ _ hget).symm.trans hcurrent
    rfl
  cases item with
  | property target value =>
    unfold setItem
    simp only
    apply Alike.bind_same
    rintro ⟨var, key⟩ w₁ htarget
    cases target with
    | property base key' =>
      cases base with
      | var var' =>
        cases htarget
        apply (Alike.of_eq (eval_currentRow h rfl)).bind
        rintro v _ w₂ _ rfl
        apply Alike.bind_same
        intro _ w₃ _
        rw [isNullVar_currentRow]
        split
        · exact hsame _
        · exact alike_assignProps _ row var _ (hbase var rfl _) w₃
      | _ => cases htarget
    | _ => cases htarget
  | var var value =>
    unfold setItem
    simp only
    rw [isNullVar_currentRow]
    split
    · exact hsame _
    · apply (Alike.of_eq (eval_currentRow h rfl)).bind
      rintro v _ w₁ _ rfl
      apply Alike.bind_same
      intro props w₂ _
      cases props with
      | none => exact hsame _
      | some props => exact alike_assignProps _ row var _ (fun _ _ _ _ _ _ _ _ _ _ _ => rfl) w₂
  | mergeMap var value =>
    unfold setItem
    simp only
    rw [isNullVar_currentRow]
    split
    · exact hsame _
    · apply (Alike.of_eq (eval_currentRow h rfl)).bind
      rintro v _ w₁ _ rfl
      apply Alike.bind_same
      intro extra w₂ _
      cases extra with
      | none => exact hsame _
      | some extra => exact alike_assignProps _ row var _ (hbase var rfl _) w₂
  | label var labels =>
    unfold setItem
    simp only
    rw [isNullVar_currentRow, nodeIdFromRow_currentRow]
    split
    · exact hsame _
    · apply Alike.bind_same
      intro nodeId w₁ _
      apply Alike.bind_same
      intro r w₂ _
      apply Alike.bind_same
      intro _ w₃ _
      exact Alike.pure (sameEntities_updateLabels row var _)

/-- The items in a row that reads current copies do what they do in turn. -/
theorem alike_items {items : List SetItem} {row row₀ : Row ch} (hsame : SameEntities row row₀)
    (h : ItemsReadCurrent W params items row w) :
    Alike (fun _ _ => True) (items.foldlM (fun row item => setItem W item row params) row)
      (items.forM fun item => do
        let s ← Recorded.get
        let _ ← setItem W item (s.db.currentRow row₀) params) w := by
  induction items generalizing row w with
  | nil => exact Alike.pure trivial
  | cons item items ih =>
    rw [List.foldlM_cons]
    have hitem : Alike (fun row' _ => SameEntities row' row) (setItem W item row params)
        (do let s ← Recorded.get
            let _ ← setItem W item (s.db.currentRow row₀) params) w := by
      have hfirst : Alike (fun row' _ => SameEntities row' row) (setItem W item row params)
          (setItem W item (w.1.db.currentRow row) params) w := alike_setItem h.1
      rw [hsame.currentRow w.1.db] at hfirst
      cases hfirst with
      | ok left right related =>
        have hturn := bind_ok (f := fun _ => pure ()) right
        exact .ok left hturn related
      | error left right =>
        have hturn := bind_error (f := fun _ => (pure () : Write Unit)) right
        exact .error left hturn
    apply hitem.bind
    intro row' _ w' hrun hrow'
    exact ih (hrow'.trans hsame) (h.2 row' w' hrun)

theorem alike_rows {items : List SetItem} {rows : List (Row ch)} (h : RowsReadCurrent W items params rows w) :
    Alike (fun _ _ => True) (setRows W items rows params) (setRowsInTurn W items rows params) w := by
  induction rows generalizing w with
  | nil => exact Alike.pure trivial
  | cons row rows ih =>
    unfold setRows setRowsInTurn at ih ⊢
    rw [List.mapM_cons]
    have hrow : Alike (fun _ _ => True)
        (do let row ← injectParams row params
            items.foldlM (fun row item => setItem W item row params) row)
        (do let row ← injectParams row params
            items.forM fun item => do
              let s ← Recorded.get
              let _ ← setItem W item (s.db.currentRow row) params) w := by
      apply Alike.bind_same
      intro r w₁ hinject
      exact alike_items (fun _ _ => rfl) (h r w₁ hinject).1
    apply hrow.bind
    intro row' _ w' hrun _
    obtain ⟨r, w₁, hinject, hitems⟩ := bind_eq_ok hrun
    cases ih ((h r w₁ hinject).2 row' w' hitems) with
    | ok left right => exact .ok (bind_ok left) right trivial
    | error left right => exact .error (bind_error left) right

end SetAux

/-- For every state, rows and items: if every item reads current copies, then the changes, the state they leave and how the
statement ends are those of the items applied in turn. -/
theorem set_in_turn (items : List SetItem) (rows : List (Row ch)) (params : Params) (s : Session)
    (h : RowsReadCurrent W items params rows (s, [])) :
    (Recorded.run (setRows W items rows params) s).2 = (Recorded.run (setRowsInTurn W items rows params) s).2 ∧
      (Recorded.run (setRows W items rows params) s).1.map (fun _ => ()) =
        (Recorded.run (setRowsInTurn W items rows params) s).1 := by
  unfold Recorded.run
  cases SetAux.alike_rows h with
  | ok left right =>
    rw [left, right]
    exact ⟨rfl, rfl⟩
  | error left right =>
    rw [left, right]
    exact ⟨rfl, rfl⟩

/-- Two nodes and a relationship between them, after `CREATE (:A)-[:R]->(:B)`. -/
def pairSession : Session :=
  { db := { nodes := [(1, ⟨["A"], []⟩), (2, ⟨["B"], []⟩)], edges := [⟨1, "R", 1, 2, []⟩], nodeSeq := 2, edgeSeq := 1 } }

/-- The relationship of the pair as the session has it. -/
def pairEdge : Value ⟨Unit, Unit, fun _ => none, fun _ _ _ _ => none⟩ := .edge 1 "R" 1 2 []

/-- The node with the label `A` of the pair, under `n`. -/
def pairRow : Row ⟨Unit, Unit, fun _ => none, fun _ _ _ _ => none⟩ := (∅ : Row _).insert "n" (.node 1 ["A"] [])

/-- `SET n.k = true` in two rows with the same node. Its copy in the second row is not current then, but is not read. -/
theorem set_in_turn_twice :
    (Recorded.run (setRows World.plain [.property (.property (.var "n") "k") (.boolLit true)] [pairRow, pairRow] ∅)
      pairSession).2 =
    (Recorded.run (setRowsInTurn World.plain [.property (.property (.var "n") "k") (.boolLit true)] [pairRow, pairRow] ∅)
      pairSession).2 := by
  have hreads : ∀ db : Db, ReadsCurrent World.plain (.property (.property (.var "n") "k") (.boolLit true)) pairRow db := by
    intro db
    constructor
    · rintro e ⟨⟩
      exact ⟨fun _ => False, fun _ _ _ _ => rfl, fun _ h => h.elim⟩
    · rintro x ⟨⟩ edgeId relType source target props hedge
      rw [pairRow, RowAux.get_insert_self] at hedge
      cases hedge
  refine (set_in_turn World.plain _ _ _ _ ?_).1
  rintro r w₁ ⟨⟩
  refine ⟨⟨hreads _, fun _ _ _ => trivial⟩, ?_⟩
  rintro row' w₂ -
  rintro r w₃ ⟨⟩
  exact ⟨⟨hreads _, fun _ _ _ => trivial⟩, fun _ _ _ => trivial⟩

/-- `SET r.a = true, s.b = true` where `r` and `s` are the same relationship: `a` is lost. -/
theorem set_loses_property :
    (Recorded.run (setRows World.plain [.property (.property (.var "r") "a") (.boolLit true),
        .property (.property (.var "s") "b") (.boolLit true)]
      [((∅ : Row _).insert "r" pairEdge).insert "s" pairEdge] ∅) pairSession).2.1.db.edges =
        [⟨1, "R", 1, 2, [("b", .bool true)]⟩] ∧
    (Recorded.run (setRowsInTurn World.plain [.property (.property (.var "r") "a") (.boolLit true),
        .property (.property (.var "s") "b") (.boolLit true)]
      [((∅ : Row _).insert "r" pairEdge).insert "s" pairEdge] ∅) pairSession).2.1.db.edges =
        [⟨1, "R", 1, 2, [("a", .bool true), ("b", .bool true)]⟩] := by
  decide +kernel

end PgEddy
