import Dataflow.Compile

/-!
# Drawings

The drawing of a graph in the DOT language: one node for each node, with its tag and one detail as
the label, and an arrow from each parent.
-/

namespace Dataflow

/-- Statements for nodes and for arrows, in the order they are written, and what was seen of both: the
names of the nodes, and the arrows. -/
structure Drawing where
  nodes : List Text := []
  arrows : List Text := []
  seen : List Text := []
deriving DecidableEq

namespace Drawing

def addNode (d : Drawing) (name statement : Text) : Drawing :=
  if name ∈ d.seen then d else { d with nodes := d.nodes ++ [statement], seen := name :: d.seen }

def addArrow (d : Drawing) (a : Text) : Drawing :=
  if a ∈ d.seen then d else { d with arrows := d.arrows ++ [a], seen := a :: d.seen }

/-- The name that a statement starts with. -/
def key (statement : Text) : Text := (statement.cut? " ").elim statement Prod.fst

def absorb (d other : Drawing) : Drawing :=
  other.arrows.foldl addArrow (other.nodes.foldl (fun d s => d.addNode (key s) s) d)

def size (d : Drawing) : Nat := d.nodes.length

def text (d : Drawing) : Text :=
  "digraph flow \x7b\n  rankdir=LR;\n"
    ++ Text.concat ((d.nodes ++ d.arrows).map fun s => "  " ++ s ++ ";\n")
    ++ "\x7d\n"

def nodeName (id : Text) : Text := "n_" ++ id.ident

def arrow (parent id : Text) : Text := nodeName parent ++ " -> " ++ nodeName id

def detail (n : Node) : Outcome Text :=
  match n.op with
  | .source | .sink => n.text "uri" ""
  | .map | .filter | .reduce => n.text "fn_name" ""
  | .window => return "size=" ++ Text.ofInt (n.int "size" 0).toInt
  | .join => return "on=" ++ (← n.text "on" "")
  | .custom => n.kind
  | _ => return ""

def label (n : Node) : Outcome Text := do
  let d ← detail n
  return if d.isEmpty then n.op.name else n.op.name ++ "\n" ++ d

def statement (n : Node) : Outcome Text := do
  return nodeName n.id ++ " [label=" ++ (← label n).quoted ++ "]"

def ofNode (n : Node) (inputs : List Drawing) : Outcome Drawing := do
  let d := (inputs.foldl absorb {}).addNode (nodeName n.id) (← statement n)
  return (n.parents.map (arrow · n.id)).foldl addArrow d

def backend : Backend Drawing where
  name := "dot"
  lower n inputs := Effect.ofOutcome (ofNode n inputs)

end Drawing

end Dataflow
