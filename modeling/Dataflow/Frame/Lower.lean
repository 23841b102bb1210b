import Dataflow.Compile
import Dataflow.Connector
import Dataflow.Function
import Dataflow.Series.Columnwise

/-!
# Columnar evaluation

The backend that lowers each node to a lazy frame, and sinks to actions on one.  A lazy frame is a source
and the transformations queued on it.  `LazyFrame.materialize` evaluates the source and then one step after
another, every time from the start, and stops at the first failure.  Values that are no rows become rows of
one cell; indicators are computed column by column.
-/

namespace Dataflow

open Effect (ofOutcome fail checkpoint print log)

structure LazyFrame where
  source : Effect Frame
  steps : List (Frame → Effect Frame) := []

namespace LazyFrame

def andThen (f : LazyFrame) (step : Frame → Effect Frame) : LazyFrame :=
  { f with steps := f.steps ++ [step] }

/-- Takes the queued steps one after another; a run that has been called off takes no more. -/
def advance : List (Frame → Effect Frame) → Frame → Effect Frame
  | [], f => return f
  | s :: ss, f => do
    checkpoint
    let g ← s f
    advance ss g

def materialize (f : LazyFrame) : Effect Frame := do
  let start ← f.source
  advance f.steps start

end LazyFrame

structure Action where
  uri : Text
  frame : LazyFrame
  write : Frame → Effect Unit

def Action.run (a : Action) : Effect Frame := do
  let f ← a.frame.materialize
  a.write f
  return f

namespace Frame

/-- The frame of values; one that is no row is a cell of its own. -/
def ofValues (vs : List Value) : Outcome Frame := ofRows (vs.map (Connector.asRow "payload"))

/-- The text that a row is joined by: that of a cell that is not empty. -/
def joinKey (column : Text) (r : Row) : Outcome (Option Text) :=
  match (Fields.get? r column).getD .null with
  | .null => return none
  | k => return some (← Outcome.ofOption k.toText?)

/-- Each row of the left frame with every row of the right one that has the same text in a column.
Cells of the left row stay. -/
def join (column : Text) (left right : Frame) : Outcome Frame := do
  let keyed (f : Frame) : Outcome (List (Option Text × Row)) :=
    f.toRows.mapM fun r => do return (← joinKey column r, r)
  let rs ← keyed right
  let ls ← keyed left
  ofRows (ls.flatMap fun (k, l) => match k with
    | none => []
    | some k => (rs.filter (·.1 = some k)).map fun (_, r) => Fields.update r l)

def withIndicator (f : Frame) (k : Indicator) (p : Indicator.Params Float) : Outcome Frame := do
  let columns ← Outcome.ofOption (Columnwise.values? k p f.series)
  return ((Indicator.columns k p).zip columns).foldl
    (fun f (name, xs) => f.withColumn name (Column.ofFloats xs)) f

end Frame

inductive Tabular where
  | lazy (f : LazyFrame)
  | action (a : Action)

def Tabular.input : Tabular → LazyFrame
  | lazy f => f
  | action a => { source := a.run }

namespace Columnar

def name : Text := "vector"

/-- The number of records in a batch that settings ask for; none for the whole file at once. -/
def chunkOf (config : Row) : Except Failure Int :=
  match (Fields.get? config "chunk_size").bind Value.toInt? with
  | none => .ok 0
  | some n =>
    if n < 0 then .error (Failure.invalidInput "chunk_size" "must not be negative")
    else .ok n.toInt

def atNode {α : Type} (n : Node) (r : Except Failure α) : Outcome α :=
  Outcome.ofExcept (r.mapError fun f => f.atNode name n.id)

def ready (vs : List Value) : LazyFrame := { source := ofOutcome (Frame.ofValues vs) }

def source (chunk : Int) (n : Node) (uri : Text) : LazyFrame :=
  let l := Location.parse uri
  match l.format with
  | some .csv | some .parquet => { source := Connector.readTable l chunk }
  | some .jsonl =>
    { source := do
        checkpoint
        let vs ← (← Connector.jsonlValues l).mapM Effect.ofExcept
        ofOutcome (Frame.ofValues vs) }
  | none =>
    if l.scheme = "memory" then ready (Connector.items ((n.value? "data").getD .null))
    else if l.scheme = "payload" then ready [(n.value? "payload").getD .null]
    else ready (Row.samples.map Value.row)

def filterRows (lib : Library) (n : Node) (f : Func) (frame : Frame) : Outcome Frame := do
  let kept ← frame.toRows.mapM fun r => atNode n (f.test lib (.row r))
  return frame.pick ((List.range frame.rows).filter fun i => kept.getD i false)

/-- Each row with the cells of what a function makes of it, or with that as a cell. -/
def mapRows (lib : Library) (n : Node) (f : Func) (frame : Frame) : Outcome Frame := do
  let rows ← frame.toRows.mapM fun r => do
    let v ← atNode n (f.call lib (.row r))
    return Fields.update r (Connector.asRow "payload" v)
  Frame.ofRows rows

def foldRows (lib : Library) (n : Node) (f : FoldCode) (init : Value) (frame : Frame) :
    Outcome Frame := do
  let acc ← frame.toRows.foldlM (fun acc r => atNode n (f.call lib acc (.row r))) init
  Frame.ofRows [[("value", acc)]]

def firstWithRows (left right : LazyFrame) : Effect Frame := do
  let l ← tryCatch (do return some (← left.materialize)) fun s => match s with
    | .failure _ => return none
    | .crash => throw .crash
  match l with
  | some f => if 0 < f.rows then return f else right.materialize
  | none => right.materialize

def printRows : List Row → Effect Unit
  | [] => return ()
  | r :: rs => do
    match (Value.row r).toJson? with
    | some j => print (j.print ++ "\n")
    | none => fail (.reader "json: unsupported value")
    printRows rs

/-- Writes the frame of a sink to its target.  A target that is no file is passed over with a
warning. -/
def store (n : Node) (uri : Text) (f : Frame) : Effect Unit := do
  if uri.isEmpty ∨ uri = "memory" ∨ uri = "collect" then return ()
  let written : Effect Unit :=
    let l := Location.parse uri
    if uri = "stdout" ∨ uri = "console" then printRows f.toRows
    else match l.format with
      | none => log
        { level := .warn, message := "no columnar writer for sink, returning frame"
          fields := [("component", .text name), ("uri", .text uri)] }
      | some .jsonl => do let _ ← Connector.write l (f.toRows.map Value.row)
      | some _ => Connector.writeFrame l f
  written.mapFailure fun f => f.atNode name n.id

def custom (n : Node) (input : Tabular) : Effect Tabular := do
  let kind ← ofOutcome n.kind
  match Indicator.lookup? kind with
  | none => do
    n.warnUnknown name kind
    return input
  | some k => do
    let params ← ofOutcome (Indicator.params k n.config)
    return .lazy (input.input.andThen fun f => ofOutcome (f.withIndicator k params))

def lower (lib : Library) (chunk : Int) (n : Node) (inputs : List Tabular) : Effect Tabular := do
  if n.op = .source then return .lazy (source chunk n (← ofOutcome (n.text "uri" "")))
  if n.op = .window then fail (Failure.unsupported name "Window")
  match inputs with
  | [] => fail n.inputMissing
  | first :: rest =>
    let f := first.input
    match n.op, rest with
    | .filter, _ =>
      match ← ofOutcome (n.func? "predicate") with
      | none => return .lazy f
      | some p => return .lazy (f.andThen fun frame => ofOutcome (filterRows lib n p frame))
    | .map, _ =>
      match ← ofOutcome (n.func? "fn") with
      | none => return .lazy f
      | some g => return .lazy (f.andThen fun frame => ofOutcome (mapRows lib n g frame))
    | .reduce, _ =>
      match (← ofOutcome (n.fold? "fn")).bind FoldFunc.code with
      | none => return .lazy f
      | some g =>
        let init := (n.value? "init").getD .null
        return .lazy (f.andThen fun frame => ofOutcome (foldRows lib n g init frame))
    | .join, [] => fail (Failure.invalidInput "parents" "join needs two inputs")
    | .join, second :: _ => do
      let on ← ofOutcome (n.text "on" "")
      return .lazy { source := do
        let l ← f.materialize
        let r ← second.input.materialize
        ofOutcome (Frame.join on l r) }
    | .union, _ | .merge, _ =>
      return .lazy { source := do
        return Frame.concat (← (f :: rest.map Tabular.input).mapM LazyFrame.materialize) }
    | .choice, second :: _ => return .lazy { source := firstWithRows f second.input }
    | .ensemble, second :: _ =>
      return .lazy { source := do
        let l ← f.materialize
        let r ← second.input.materialize
        return l.beside r }
    | .custom, _ => custom n first
    | .sink, _ => do
      let uri ← ofOutcome (n.text "uri" "")
      return .action { uri, frame := f, write := store n uri }
    | _, _ => return .lazy f

def backend (lib : Library) (chunk : Int) : Backend Tabular :=
  .branching name (lower lib chunk) fun _ s => s

end Columnar

end Dataflow
