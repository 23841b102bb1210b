import Dataflow.Graph.Node

/-!
# Graphs

A graph is an identifier, a list of nodes with different identifiers, in the order they were added,
and the edges that were recorded with them.  It only grows: a node is added once, with one edge from
each of its parents.
-/

namespace Dataflow

structure Edge where
  parent : Text
  child : Text
deriving DecidableEq

def Node.edges (n : Node) : List Edge := n.parents.map fun p => ⟨p, n.id⟩

structure Graph where
  id : Text
  nodes : List Node := []
  edges : List Edge := []
  nodup_ids : (nodes.map Node.id).Nodup := by simp
  edges_eq : edges = nodes.flatMap Node.edges := by simp

namespace Graph

def empty (id : Text) : Graph := { id }

@[simp] theorem nodes_empty (id : Text) : (empty id).nodes = [] := rfl

instance : Inhabited Graph := ⟨empty default⟩

def node? (g : Graph) (id : Text) : Option Node := g.nodes.find? (·.id = id)

def has (g : Graph) (id : Text) : Bool := g.nodes.any (·.id = id)

def size (g : Graph) : Nat := g.nodes.length

def ids (g : Graph) : List Text := g.nodes.map Node.id

theorem has_iff {g : Graph} {id : Text} : g.has id ↔ id ∈ g.ids := by
  simp [has, ids]

theorem mem_ids_of_node? {g : Graph} {id : Text} {n : Node} (h : g.node? id = some n) :
    id ∈ g.ids := by
  have hid : n.id = id := by simpa using List.find?_some h
  exact hid ▸ List.mem_map_of_mem (List.mem_of_find?_eq_some h)

def add (g : Graph) (n : Node) : Graph :=
  if h : g.has n.id then g
  else
    { g with
      nodes := g.nodes ++ [n]
      edges := g.edges ++ n.edges
      nodup_ids := by
        rw [has_iff] at h
        rw [List.map_append, List.nodup_append]
        refine ⟨g.nodup_ids, by simp, ?_⟩
        rintro a ha b hb rfl
        obtain rfl : a = n.id := by simpa using hb
        exact h ha
      edges_eq := by rw [g.edges_eq]; simp }

def ofNodes (id : Text) (nodes : List Node) : Graph := nodes.foldl add (empty id)

def absorb (g other : Graph) : Graph := other.nodes.foldl add g

def sources (g : Graph) : List Node := g.nodes.filter (·.parents.isEmpty)

def sinks (g : Graph) : List Node := g.nodes.filter (·.op = .sink)

def leaves (g : Graph) : List Node :=
  g.nodes.filter fun n => !(g.edges.any (·.parent = n.id))

end Graph

end Dataflow
