import Dataflow.Graph.Basic

/-!
# Streams

A stream is a handle: the tip of a pipeline together with the graph that owns it.  Several streams
may share one graph.  A `Session` holds the graphs and streams made so far and draws the identifiers
of nodes and graphs from a supply, in order.  Combining streams of two graphs lets the larger graph
absorb the smaller, and moves the two streams to it.
-/

namespace Dataflow

/-- A handle: a node and the number of the graph that owns it. -/
structure Stream where
  tip : Node
  graph : Nat
deriving Inhabited

/-- The identifier with a number, in groups: eight hexadecimal digits, and zeros but for the marks of
a random identifier. -/
def identifier (n : Nat) : List Text :=
  [Text.ofHex 8 n, "0000", "4000", "8000", "000000000000"]

structure Session where
  /-- The identifier of each draw, in groups. -/
  supply : Nat → List Text := identifier
  drawn : Nat := 0
  graphs : List Graph := []
  streams : List Stream := []

/-- Steps of building; a failing step keeps what was done before it. -/
abbrev Building := ExceptT Stop (StateM Session)

inductive Operator where
  /-- One node with the tip as its only parent. -/
  | single (op : Op) (config : Row)
  /-- One node with the tip and the tips of other streams as parents. -/
  | multi (op : Op) (config : Row) (others : List (Option Nat))
  /-- Operators bound one after another; there is at least one. -/
  | chain (first : Operator) (more : List Operator)
deriving Inhabited

namespace Operator

def withExpr (config : Row) (expr : Text) : Row :=
  if expr.isEmpty then config else Fields.set "expr" (.text expr) config

def map (f : Func) : Operator :=
  single .map (withExpr [("fn", .func f), ("fn_name", .text f.text)] f.expr)

def filter (f : Func) : Operator :=
  single .filter (withExpr [("fn_name", .text f.text), ("predicate", .func f)] f.expr)

def sink (uri : Text) : Operator := single .sink [("uri", .text uri)]

def window (size : Int64) : Operator := single .window [("size", .int size)]

def reduce (f : FoldFunc) (init : Value) : Operator :=
  single .reduce
    (withExpr [("fn", .fold f), ("fn_name", .text f.text), ("init", init)] f.expr)

def custom (kind : Text) (params : Row) : Operator :=
  single .custom (Fields.set "kind" (.text kind) params)

def join (other : Option Nat) (on : Text) : Operator := multi .join [("on", .text on)] [other]

def union (others : List (Option Nat)) : Operator := multi .union [] others

mutual

def op : Operator → Op
  | single op _ => op
  | multi op _ _ => op
  | chain first more => lastOp (op first) more

def lastOp (last : Op) : List Operator → Op
  | [] => last
  | o :: os => lastOp (op o) os

end

mutual

def config : Operator → Row
  | single _ c => c
  | multi _ c _ => c
  | chain first more => [("steps", .list (describe first :: describeAll more))]

def describe : Operator → Value
  | o@(single _ c) | o@(multi _ c _) => .row [("config", .row c), ("type", .text (op o).name)]
  | o@(chain first more) =>
    .row [("config", .row [("steps", .list (describe first :: describeAll more))]),
          ("type", .text (op o).name)]

def describeAll : List Operator → List Value
  | [] => []
  | o :: os => describe o :: describeAll os

end

def branchConfig (left right : Operator) : Row :=
  [("left", left.describe), ("right", right.describe)]

/-- Applies the left operator, and the right one where the left yields nothing. -/
def choice (left right : Operator) : Operator := single .choice (branchConfig left right)

/-- Applies both operators to the same input and pairs the results. -/
def ensemble (left right : Operator) : Operator := single .ensemble (branchConfig left right)

end Operator

namespace Session

def nodeId (s : Session) (draw : Nat) : Text := Text.concat (s.supply draw)

def graphId (s : Session) (draw : Nat) : Text := Text.join "-" (s.supply draw)

def draw : Building Nat := do
  let s ← get
  set { s with drawn := s.drawn + 1 }
  return s.drawn + 1

def newNodeId : Building Text := do
  let k ← draw
  return (← get).nodeId k

def newGraphId : Building Text := do
  let k ← draw
  return (← get).graphId k

def stream (ref : Nat) : Building Stream := do
  match (← get).streams[ref]? with
  | some s => return s
  | none => throw .crash

def graphAt (s : Session) (ref : Nat) : Graph := s.graphs.getD ref default

def newStream (n : Node) (graph : Nat) : Building Nat := do
  let s ← get
  set { s with
    graphs := s.graphs.modify graph (·.add n)
    streams := s.streams ++ [Stream.mk n graph] }
  return s.streams.length

def source (config : Row) : Building Nat := do
  let id ← newNodeId
  let graphId ← newGraphId
  let s ← get
  set { s with graphs := s.graphs ++ [Graph.empty graphId] }
  newStream { id, op := .source, config } s.graphs.length

def fromUri (uri : Text) : Building Nat := source [("uri", .text uri)]

def fromPayload (v : Value) : Building Nat := source [("payload", v), ("uri", .text "payload://")]

def fromItems (vs : List Value) : Building Nat :=
  source [("data", .list vs), ("uri", .text "memory://")]

/-- Lets the graph `into` absorb the graph `gone`, and moves two streams to it. -/
def merge (s : Session) (into gone a b : Nat) : Session :=
  { s with
    graphs := s.graphs.set into ((s.graphAt into).absorb (s.graphAt gone))
    streams := (s.streams.modify a fun st => { st with graph := into }).modify b
      fun st => { st with graph := into } }

/-- Makes two streams share one graph: the one with more nodes absorbs the other, and on a tie the
first. -/
def unify (a b : Nat) : Building Unit := do
  let sa ← stream a
  let sb ← stream b
  if sa.graph ≠ sb.graph then
    modify fun s =>
      if (s.graphAt sa.graph).size < (s.graphAt sb.graph).size then s.merge sb.graph sa.graph a b
      else s.merge sa.graph sb.graph a b

/-- Makes a stream share one graph with each of the others in turn; the identifiers of their tips. -/
def unifyAll (ref : Nat) : List (Option Nat) → Building (List Text)
  | [] => return []
  | none :: _ => throw .crash
  | some o :: others => do
    unify ref o
    let tip := (← stream o).tip.id
    let tips ← unifyAll ref others
    return tip :: tips

def combine (op : Op) (config : Row) (ref : Nat) (others : List (Option Nat)) : Building Nat := do
  let first ← stream ref
  let tips ← unifyAll ref others
  let id ← newNodeId
  newStream { id, op, config, parents := first.tip.id :: tips } (← stream ref).graph

def extend (op : Op) (config : Row) (ref : Nat) : Building Nat := do
  let id ← newNodeId
  let s ← stream ref
  newStream { id, op, config, parents := [s.tip.id] } s.graph

mutual

def bind : Operator → Nat → Building Nat
  | .single op config, ref => extend op config ref
  | .multi op config others, ref => combine op config ref others
  | .chain first more, ref => do
    let ref ← bind first ref
    bindAll more ref

def bindAll : List Operator → Nat → Building Nat
  | [], ref => return ref
  | o :: os, ref => do
    let ref ← bind o ref
    bindAll os ref

end

def combineWith (op : Op) (a b : Nat) : Building Nat :=
  match op with
  | .choice | .ensemble | .merge => combine op [] a [some b]
  | _ => throw (.failure (Failure.build ("cannot combine streams with " ++ op.name)))

end Session

end Dataflow
