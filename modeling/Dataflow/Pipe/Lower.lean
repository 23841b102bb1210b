import Dataflow.Compile
import Dataflow.Connector
import Dataflow.Function
import Dataflow.Indicator

/-!
# Streaming

The backend that lowers each node to a pipeline.  Nothing is read before a pipeline is run.  A sink
is a pipeline with a delivery: running it makes one pass, delivers all values and gives them back; as
the input of another node it does the same on the first pull.
-/

namespace Dataflow

open Effect

inductive Flow where
  | pipe (p : Pipe)
  /-- A pass whose values are delivered at its end. -/
  | sink (p : Pipe) (deliver : List Value → Effect Unit)

namespace Flow

def input : Flow → Pipe
  | pipe p => p
  | sink p deliver => .gather p fun vs => do deliver vs; return vs

/-- Runs a flow: the values, those before a failure for a pipeline and none for a sink, and the
failure. -/
def run (limit : Nat) : Flow → Effect (List Value × Option Failure)
  | pipe p => p.collected limit
  | sink p deliver => do
    match ← p.collected limit with
    | (_, some f) => return ([], some f)
    | (vs, none) =>
      tryCatch (do deliver vs; return (vs, none)) fun s => match s with
        | .failure f => return ([], some f)
        | .crash => throw .crash

end Flow

namespace Streaming

structure Options where
  /-- How many values a map works on at a time. -/
  workers : Int := 1
  echo : Bool := false

def name : Text := "native"

def Options.ofConfig (config : Row) : Except Failure Options := do
  let workers ← match (Fields.get? config "workers").bind Value.toInt? with
    | none => pure (1 : Int)
    | some n =>
      if n < 1 then throw (Failure.invalidInput "workers" "must be at least 1" : Failure)
      else pure n.toInt
  let echo := ((Fields.get? config "echo_sink").bind Value.bool?).getD false
  return { workers, echo }

def atNode {α : Type} (n : Node) (r : Except Failure α) : Outcome α :=
  Outcome.ofExcept (r.mapError fun f => f.atNode name n.id)

def line (v : Value) : Text :=
  match v.toJson? with
  | some j => j.print ++ "\n"
  | none => v.toMessage ++ "\n"

def printAll (vs : List Value) : Effect Unit := print (Text.concat (vs.map line))

/-- Writes the values of a sink to its target.  A target that is no known file is tried as a file
of documents, and given up with a warning where that cannot be made. -/
def store (n : Node) (uri : Text) (vs : List Value) : Effect Unit := do
  let l := Location.parse uri
  let target : Location :=
    if l.isFile then l else { uri, scheme := "", path := uri, format := some .jsonl }
  tryCatch (do let _ ← Connector.write target vs) fun s => match s with
    | .failure f =>
      if l.isFile || !f.hasCode .connectorUnavailable then fail (f.atNode name n.id)
      else log
        { level := .warn, message := "sink target not writable, collecting instead"
          fields := [("component", .text name), ("uri", .text uri), ("error", .text f.text)] }
    | .crash => throw .crash

def deliver (o : Options) (n : Node) (uri : Text) (vs : List Value) : Effect Unit := do
  if uri = "stdout" ∨ uri = "console" then printAll vs
  else do
    unless uri.isEmpty ∨ uri = "memory" ∨ uri = "collect" do store n uri vs
    if o.echo then printAll vs

def joinKey (column : Text) (v : Value) : Outcome (Option Text) :=
  match (v.asRow?.bind (Fields.get? · column)).getD .null with
  | .null => return none
  | k => return some (← Outcome.ofOption k.toText?)

def mergeRows (left right : Value) : Value :=
  .row (Fields.update (right.asRow?.getD []) (left.asRow?.getD []))

def rowsFor (k : Indicator) (vs : List Value) : Except Failure (List Row) :=
  vs.mapM fun v => match v.asRow? with
    | some r => .ok r
    | none => .error (Failure.invalidInput "element" (k.name ++ " needs rows, got " ++ v.typeName))

/-- A custom node computes an indicator on all rows of its input. -/
def custom (n : Node) (input : Flow) : Effect Flow := do
  let kind ← ofOutcome n.kind
  match Indicator.lookup? kind with
  | none => do
    n.warnUnknown name kind
    return input
  | some k => do
    let params ← ofOutcome (Indicator.params k n.config)
    return .pipe (.gather input.input fun vs => ofOutcome do
      let rows ← atNode n (rowsFor k vs)
      let rows ← (Indicator.compute k params rows).mapFailure fun f => f.atNode name n.id
      return rows.map Value.row)

def lower (lib : Library) (o : Options) (n : Node) (inputs : List Flow) : Effect Flow := do
  if n.op = .source then
    return .pipe (Connector.source (← ofOutcome (n.text "uri" "")) n.config)
  match inputs with
  | [] => fail n.inputMissing
  | first :: rest =>
    let p := first.input
    match n.op, rest with
    | .map, _ =>
      match ← ofOutcome (n.func? "fn") with
      | none => return .pipe p
      | some f => return .pipe (p.parallel o.workers fun v => atNode n (f.call lib v))
    | .filter, _ =>
      match ← ofOutcome (n.func? "predicate") with
      | none => return .pipe p
      | some f => return .pipe (.filter p fun v => atNode n (f.test lib v))
    | .window, _ =>
      let size := n.int "size" 1
      if size < 1 then
        fail (Failure.invalidInput "size" "window size must be at least 1")
      else return .pipe (.sliding p size.toInt)
    | .reduce, _ =>
      match (← ofOutcome (n.fold? "fn")).bind FoldFunc.code with
      | none => return .pipe p
      | some f => return .pipe (.reduce p ((n.value? "init").getD .null) fun acc v =>
          atNode n (f.call lib acc v))
    | .join, [] => fail (Failure.invalidInput "parents" "join needs two inputs")
    | .join, second :: _ => do
      let on ← ofOutcome (n.text "on" "")
      return .pipe (.join p second.input (joinKey on) mergeRows)
    | .union, _ | .merge, _ => return .pipe (.concat (p :: rest.map Flow.input))
    | .choice, second :: _ => return .pipe (.fallback p second.input)
    | .ensemble, second :: _ => return .pipe (.zip p second.input fun l r => .list [l, r])
    | .custom, _ => custom n first
    | .sink, _ => do
      let uri ← ofOutcome (n.text "uri" "")
      return .sink p (deliver o n uri)
    | _, _ => return .pipe p

def backend (lib : Library) (o : Options) : Backend Flow :=
  .branching name (lower lib o) fun _ s => s

end Streaming

end Dataflow
