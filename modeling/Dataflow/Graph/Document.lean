import Dataflow.Graph.Basic
import Dataflow.Json.Reader

/-!
# Graphs as documents

`Graph.toJson` writes a graph with its identifier, nodes and edges; settings that a document cannot
hold are written as their display text.  `Graph.ofText` reads such a document.  Members are matched
without regard to case, unknown members are passed over, and a member that is given twice updates
what the first one set.  Edges are checked for their form only: the edges of the graph read are those
its nodes name.
-/

namespace Dataflow

def Node.settings? (n : Node) : Outcome (Option Json) := do
  let fields ← Outcome.ofOption (Value.displayableFields? n.config)
  return (Value.row fields).toJson?

namespace Graph

def nodeJson? (n : Node) : Outcome (Option Json) := do
  let config ← n.settings?
  return config.map fun c => .object
    [("id", .text n.id), ("type", .text n.op.name), ("config", c), ("parents", .ofTexts n.parents)]

def toJson? (g : Graph) : Outcome (Option Json) := do
  let nodes ← g.nodes.mapM nodeJson?
  let edges := g.edges.map fun e => Json.ofTexts [e.parent, e.child]
  return if nodes.all Option.isSome then
    some (.object
      [("id", .text g.id), ("nodes", .array (nodes.filterMap fun n => n)), ("edges", .array edges)])
  else none

structure Draft where
  id : Text := ""
  type : Text := ""
  config : Row := []
  parents : List Text := []

namespace Draft

/-- A text member; null leaves what was there. -/
def readText? (old : Text) : Json → Option Text
  | .text t => some t
  | .null => some old
  | _ => none

/-- A list member; an element updates the old one at its place. -/
def readList? {α : Type} (fresh : α) (update : α → Json → Option α) (old : List α) :
    Json → Option (List α)
  | .null => some []
  | .array xs => xs.zipIdx.mapM fun (x, i) => update (old.getD i fresh) x
  | _ => none

/-- A settings member; it updates the old settings. -/
def readConfig? (old : Row) : Json → Option Row
  | .null => some []
  | .object ms => (Json.toFields? ms).map (Fields.update old)
  | _ => none

def member? (d : Draft) (member : Text × Json) : Option Draft :=
  let (key, j) := member
  if Text.sameFold key "id" then (readText? d.id j).map fun id => { d with id }
  else if Text.sameFold key "type" then (readText? d.type j).map fun type => { d with type }
  else if Text.sameFold key "config" then (readConfig? d.config j).map fun config => { d with config }
  else if Text.sameFold key "parents" then
    (readList? Text.empty readText? d.parents j).map fun parents => { d with parents }
  else some d

def update? (d : Draft) : Json → Option Draft
  | .null => some d
  | .object ms => ms.foldlM member? d
  | _ => none

end Draft

structure Outline where
  id : Text := ""
  nodes : List Draft := []

def isEdge : Json → Bool
  | .null => true
  | .array xs => (xs.take 2).all fun x => match x with
    | .text _ | .null => true
    | _ => false
  | _ => false

def Outline.member? (o : Outline) (member : Text × Json) : Option Outline :=
  let (key, j) := member
  if Text.sameFold key "id" then (Draft.readText? o.id j).map fun id => { o with id }
  else if Text.sameFold key "nodes" then
    (Draft.readList? {} Draft.update? o.nodes j).map fun nodes => { o with nodes }
  else if Text.sameFold key "edges" then
    match j with
    | .null => some o
    | .array xs => if xs.all isEdge then some o else none
    | _ => none
  else some o

def outline? : Json → Option Outline
  | .null => some {}
  | .object ms => ms.foldlM Outline.member? {}
  | _ => none

def Draft.node (d : Draft) : Except Failure Node :=
  match Op.ofName? d.type with
  | some op => .ok { id := d.id, op, config := d.config, parents := d.parents }
  | none => .error (Failure.invalidInput "type"
      ("node " ++ d.id ++ " has unknown op type " ++ d.type.quoted))

def ofText (t : Text) : Except Failure Graph :=
  match (Json.read? t).bind outline? with
  | none => .error (Failure.invalidInput "graph" "not a graph document")
  | some o => do
    let nodes ← o.nodes.mapM Draft.node
    return ofNodes o.id nodes

end Graph

end Dataflow
