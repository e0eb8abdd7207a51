import PgEddy.Json
import PgEddy.Temporal

/-!
# Runtime values and their JSON

A value of a query is kept in lists, in maps and in properties as JSON (`toJson`) and taken out again (`jsonToValue`), which
finds out from the shape of the JSON what the value was.
-/

namespace PgEddy

open Binary64 SortedMap

/-- A value of a query. A list and a map are JSON. -/
inductive Value (ch : Chrono) where
  | node (nodeId : Int64) (labels : List String) (properties : List (String × Json))
  | edge (edgeId : Int64) (relType : String) (source target : Int64) (properties : List (String × Json))
  | path (nodes rels : List (Value ch))
  | int (i : Int64)
  | float (f : F64)
  | str (s : String)
  | bool (b : Bool)
  | null
  | json (v : Json)
  | temporal (tv : TemporalValue ch)
  | duration (d : CypherDuration)

namespace Value

variable {ch : Chrono}

/-- The entries of a map set one after another. -/
def jsonMap (entries : List (String × Json)) : List (String × Json) := entries.foldl (fun m e => SortedMap.insert e.1 e.2 m) []

def jsonInt (i : Int64) : Json := .number (.ofI64 i)

/-- The object of a node. -/
def nodeFields (nodeId : Int64) (labels : List String) (properties : List (String × Json)) : List (String × Json) :=
  jsonMap [("node_id", jsonInt nodeId), ("labels", .array (labels.map Json.string)), ("properties", .object properties)]

/-- The object of an edge. -/
def edgeFields (edgeId : Int64) (relType : String) (source target : Int64) (properties : List (String × Json)) :
    List (String × Json) :=
  jsonMap [("rel_id", jsonInt edgeId), ("rel_type", .string relType), ("source_node_id", jsonInt source),
    ("target_node_id", jsonInt target), ("properties", .object properties)]

/-- The elements of a path in turn: a node, the relationship of its index if there is one, the next node. -/
def interleave {α : Type} : List α → List α → List α
  | [], _ => []
  | n :: nodes, [] => n :: interleave nodes []
  | n :: nodes, r :: rels => n :: r :: interleave nodes rels

/-- The JSON of a float: no number is a string, an infinity is null. -/
def floatJson (f : F64) : Json :=
  if f.isNan then .string "NaN"
  else match JsonNumber.ofF64? f with
    | some n => .number n
    | none => .null

mutual

/-- The JSON of a value. -/
def toJson : Value ch → Json
  | .node nodeId labels properties => .object (nodeFields nodeId labels properties)
  | .edge edgeId relType source target properties => .object (edgeFields edgeId relType source target properties)
  | .int i => jsonInt i
  | .float f => floatJson f
  | .str s => .string s
  | .bool b => .bool b
  | .null => .null
  | .json v => v
  | .temporal tv => .string tv.iso
  | .duration d => .string d.iso
  | .path nodes rels => .array (interleave (toJsons nodes) (toJsons rels))

def toJsons : List (Value ch) → List Json
  | [] => []
  | v :: vs => toJson v :: toJsons vs

end

end Value

/-! ## Reading JSON -/

/-- The value of a number. -/
def numberValue {ch : Chrono} (n : JsonNumber) : Value ch :=
  match n.asI64 with
  | some i => .int i
  | none => .float (n.asF64.getD (.ofNat 0))

/-- The value of a string: a float, a temporal value or a duration if it is the text of one. -/
def stringValue (ch : Chrono) (s : String) : Except Panic (Value ch) :=
  if s = "NaN" then .ok (.float .nan)
  else do
    match ← (tryParseTemporalIso ch s).run with
    | some tv => return .temporal tv
    | none =>
      match ← (tryParseDurationIso s).run with
      | some d => return .duration d
      | none => return .str s

def asString : Json → Option String
  | .string s => some s
  | _ => none

/-- The node that an object looks like. -/
def asNode? {ch : Chrono} (m : List (String × Json)) : Option (Value ch) :=
  match m.lookup "node_id", m.lookup "labels", m.lookup "properties" with
  | some (.number nid), some (.array lbls), some (.object props) =>
    nid.asI64.map fun nodeId => .node nodeId (lbls.filterMap asString) props
  | _, _, _ => none

/-- The edge that an object looks like. -/
def asEdge? {ch : Chrono} (m : List (String × Json)) : Option (Value ch) :=
  match m.lookup "rel_id", m.lookup "rel_type", m.lookup "source_node_id", m.lookup "target_node_id",
    m.lookup "properties" with
  | some (.number eid), some (.string rtype), some (.number src), some (.number tgt), some (.object props) =>
    match eid.asI64, src.asI64, tgt.asI64 with
    | some edgeId, some source, some target => some (.edge edgeId rtype source target props)
    | _, _, _ => none
  | _, _, _, _, _ => none

/-- The value of an object: a node or an edge if it looks like one. -/
def objectValue {ch : Chrono} (m : List (String × Json)) : Value ch :=
  match asNode? m with
  | some v => v
  | none => (asEdge? m).getD (.json (.object m))

/-- The item of an array looks like the element of a path at its index. -/
def isPathElement (key : String) : Json → Bool
  | .object m => (m.lookup key).isSome
  | _ => false

/-- Every item from an even index on looks like a node, and a relationship in turn. -/
def isPathFrom : Bool → List Json → Bool
  | _, [] => true
  | even, item :: items => isPathElement (if even then "node_id" else "rel_id") item && isPathFrom (!even) items

/-- The array looks like a path. -/
def isPathArray (items : List Json) : Bool := !items.isEmpty && isPathFrom true items

/-- The items of the even indices and those of the odd ones. -/
def deinterleave {α : Type} : List α → List α × List α
  | [] => ([], [])
  | [n] => ([n], [])
  | n :: r :: rest => (n :: (deinterleave rest).1, r :: (deinterleave rest).2)

mutual

/-- The value of JSON. -/
def jsonToValue (ch : Chrono) : Json → Except Panic (Value ch)
  | .null => .ok .null
  | .bool b => .ok (.bool b)
  | .number n => .ok (numberValue n)
  | .string s => stringValue ch s
  | .object m => .ok (objectValue m)
  | .array items =>
    if isPathArray items then do
      let vals ← jsonToValues ch items
      return .path (deinterleave vals).1 (deinterleave vals).2
    else .ok (.json (.array items))

def jsonToValues (ch : Chrono) : List Json → Except Panic (List (Value ch))
  | [] => .ok []
  | item :: items => do
    let val ← jsonToValue ch item
    let vals ← jsonToValues ch items
    return val :: vals

end

end PgEddy
