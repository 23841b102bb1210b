import Dataflow.Graph.Branch
import Dataflow.Workspace

/-!
# Compiling graphs

A backend lowers one node, given what the parents of the node were lowered to.  `Backend.compile`
walks a graph from its targets, the sinks or else the leaves, and lowers each node that it reaches
once, after its parents.  A parent that is not in the graph and a chain of parents that comes back to
a node are failures of the graph; a failure of the backend is reported at the node it happened at.
-/

namespace Dataflow

structure Backend (α : Type) where
  name : Text
  lower : Node → List α → Effect α

namespace Backend

variable {α : Type}

mutual

/-- Lowers a step on top of an artifact: a composite node joins what its two branches are lowered
to. -/
def lowerStep (lower : Node → List α → Effect α) (explain : Node → Stop → Stop) :
    Step → α → Effect α
  | .single n, input => lower n [input]
  | .broken n s, _ => throw (explain n s)
  | .composite n left right, input => do
    let l ← lowerSteps lower explain left input
    let r ← lowerSteps lower explain right input
    lower { id := n.id, op := n.op, parents := ["left", "right"] } [l, r]

def lowerSteps (lower : Node → List α → Effect α) (explain : Node → Stop → Stop) :
    List Step → α → Effect α
  | [], input => return input
  | s :: ss, input => do
    let a ← lowerStep lower explain s input
    lowerSteps lower explain ss a

end

/-- The backend that lowers composite nodes by their branches, and other nodes as given. -/
def branching (name : Text) (lower : Node → List α → Effect α)
    (explain : Node → Stop → Stop) : Backend α where
  name := name
  lower n parents :=
    match n.step, parents with
    | .single n, parents => lower n parents
    | s, input :: _ => lowerStep lower explain s input
    | _, [] => lower n []

end Backend

namespace Node

def inputMissing (n : Node) : Failure :=
  Failure.invalidInput "parents" (n.op.name ++ " node requires input")

/-- Warns of a custom node of an unknown kind, which passes its input on. -/
def warnUnknown (n : Node) (backend kind : Text) : Effect Unit :=
  Effect.log
    { level := .warn, message := "custom op passthrough"
      fields := [("component", .text backend), ("backend", .text backend),
        ("node_id", .text n.shortId), ("kind", .text kind)] }

end Node

def Graph.targets (g : Graph) : List Node :=
  if g.sinks.isEmpty then g.leaves else g.sinks

def Graph.inactive (g : Graph) (active : List Text) : List Text := g.ids.filter (· ∉ active)

/-- Entering a node leaves fewer nodes to enter. -/
theorem Graph.length_inactive_lt (g : Graph) {active : List Text} {id : Text} {n : Node}
    (hn : g.node? id = some n) (ha : id ∉ active) :
    (g.inactive (id :: active)).length < (g.inactive active).length := by
  have hsplit : g.inactive (id :: active) = (g.inactive active).filter (· ≠ id) := by
    simp [inactive, List.filter_filter]
  have hid : id ∈ g.inactive active := by simp [inactive, mem_ids_of_node? hn, ha]
  rw [hsplit]
  exact List.length_filter_lt_length_iff_exists.mpr ⟨id, hid, by simp⟩

/-- The state of a walk: what nodes were lowered to, in the order they were. -/
structure Compilation (α : Type) where
  memo : List (Text × α) := []
  workspace : Workspace := {}

def Compilation.artifact? {α : Type} (c : Compilation α) (id : Text) : Option α :=
  (c.memo.find? (·.1 = id)).map Prod.snd

abbrev Compiling (α : Type) := ExceptT Stop (StateM (Compilation α))

namespace Backend

variable {α : Type} (b : Backend α) (g : Graph)

def lowerAt (n : Node) (inputs : List α) : Compiling α α := do
  let c ← get
  let (r, w) := (do Effect.checkpoint; b.lower n inputs : Effect α).run.run c.workspace
  match r with
  | .ok a =>
    set { memo := c.memo ++ [(n.id, a)], workspace := w : Compilation α }
    return a
  | .error (.failure f) =>
    set { c with workspace := w }
    throw (.failure (f.atNode b.name n.id))
  | .error .crash => throw .crash

/-- The artifact of a node that `child` reads, lowering what it needs.  The active nodes are those on
the chain that led here; none of them may be entered again. -/
def visit (active : List Text) (id child : Text) : Compiling α α := do
  match (← get).artifact? id with
  | some a => return a
  | none =>
    match _hn : g.node? id with
    | none => throw (.failure (Failure.danglingParent child id))
    | some n =>
      if _ha : id ∈ active then
        throw (.failure ((Failure.malformedGraph ("cycle through node " ++ n.shortId)).withDetail
          "node" (.text id)))
      else
        let inputs ← n.parents.mapM fun p => visit (id :: active) p id
        b.lowerAt n inputs
termination_by (g.inactive active).length
decreasing_by exact g.length_inactive_lt _hn _ha

def artifacts : Compiling α (List (Text × α)) := do
  if g.nodes.isEmpty then throw (.failure (Failure.malformedGraph "graph has no nodes"))
  g.targets.mapM fun n => do return (n.id, ← visit b g [] n.id "")

def compile (w : Workspace) : Outcome (List (Text × α)) × Compilation α :=
  let (r, c) := (artifacts b g).run.run { workspace := w }
  let entry (level : LogLevel) (message : Text) (fields : List (Text × Value)) : LogEntry :=
    { level, message,
      fields := ("component", .text "compiler") :: ("graph_id", .text g.id)
        :: ("target", .text b.name) :: fields }
  let log (e : LogEntry) : Compilation α :=
    { c with workspace := { c.workspace with log := c.workspace.log ++ [e] } }
  match r with
  | .error (.failure f) => (r, log (entry .error "compile failed"
      [("error", .text f.text), ("node_id", .text f.node)]))
  | .ok ts => (r, log (entry .debug "compile complete" [("count", .int (Int64.ofNat ts.length))]))
  | .error .crash => (r, c)

end Backend

end Dataflow
