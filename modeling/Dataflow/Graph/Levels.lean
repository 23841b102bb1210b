import Dataflow.Graph.Basic

/-!
# Levels

`Graph.levels` groups the nodes of a graph by their depth: the nodes without parents first, and then
in every round those whose last open edge the round before has closed.
-/

namespace Dataflow.Graph

/-- The number of open edges into each node. -/
abbrev OpenEdges := List (Text × Nat)

def closeEdge (child : Text) (state : OpenEdges × List Text) : OpenEdges × List Text :=
  let (counts, released) := state
  let left := ((counts.find? (·.1 = child)).map Prod.snd).getD 0
  (counts.map fun (id, n) => if id = child then (id, n - 1) else (id, n),
   if left = 1 then released ++ [child] else released)

def closeLevel (g : Graph) (counts : OpenEdges) (level : List Text) : OpenEdges × List Text :=
  level.foldl (fun state id =>
    (g.edges.filter (·.parent = id)).foldl (fun state e => closeEdge e.child state) state)
    (counts, [])

/-- The levels from a given one on; each round but the last takes a node away, so their number is
bounded by that of the nodes. -/
def levelsFrom (g : Graph) : Nat → OpenEdges → List Text → List (List Text)
  | 0, _, _ => []
  | fuel + 1, counts, level =>
    if level.isEmpty then []
    else
      let (counts, next) := closeLevel g counts level
      level :: levelsFrom g fuel counts next

/-- The node identifiers by depth.  A parent outside the graph and a cycle are failures. -/
def levels (g : Graph) : Except Failure (List (List Text)) :=
  match g.edges.find? fun e => !g.has e.parent with
  | some e => .error (Failure.danglingParent e.child e.parent)
  | none =>
    let counts := g.nodes.map fun n => (n.id, n.parents.length)
    let found := levelsFrom g g.size counts (g.sources.map Node.id)
    let visited := found.flatten.length
    if visited = g.size then .ok found
    else .error (Failure.malformedGraph ("cycle detected, processed " ++ Text.ofNat visited
      ++ " of " ++ Text.ofNat g.size ++ " nodes"))

end Dataflow.Graph
