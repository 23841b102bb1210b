import Dataflow.Definition.Basic
import Dataflow.Function
import Dataflow.Stream

/-!
# Building definitions

A definition becomes a stream: its own source, then what it includes, in order, all merged into one,
and its steps bound to that.  What has been built under a name is built once, so that the graph shares
its nodes.
-/

namespace Dataflow

structure Functions where
  funcs : List (Text × Func) := []
  folds : List (Text × FoldFunc) := []

namespace Functions

/-- Functions under their names; of two with one name the later counts. -/
def ofLists (funcs : List Func) (folds : List FoldFunc) : Functions :=
  { funcs := Fields.ofList (funcs.map fun f => (f.name, f))
    folds := Fields.ofList (folds.map fun f => (f.name, f)) }

def standard : Functions := ofLists StandardFunc.funcs StandardFunc.folds

def names (fs : Functions) : List Text :=
  Fields.keys (Fields.ofList (fs.funcs.map (fun f => (f.1, ())) ++ fs.folds.map fun f => (f.1, ())))

def func (fs : Functions) (name : Text) : Except Failure Func :=
  match Fields.get? fs.funcs name with
  | some f => .ok f
  | none => .error (Failure.notFound "function" name)

def fold (fs : Functions) (name : Text) : Except Failure FoldFunc :=
  match Fields.get? fs.folds name with
  | some f => .ok f
  | none => .error (Failure.notFound "reduce function" name)

end Functions

def DefinitionStep.operator (s : DefinitionStep) (fs : Functions) : Except Failure Operator := do
  if s.op = "map" || s.op = "filter" then
    let f ← fs.func s.fn
    let f := { f with expr := s.expr.orElse f.expr }
    return if s.op = "map" then .map f else .filter f
  else if s.op = "window" then return .window s.size
  else if s.op = "reduce" then
    let f ← fs.fold s.fn
    let init : Value := match s.init with
      | .null => .float 0
      | v => v
    return .reduce { f with expr := s.expr.orElse f.expr } init
  else if s.op = "custom" then return .custom s.kind (s.params.getD [])
  else if s.op = "sink" then return .sink s.uri
  else .error (Failure.invalidInput "op" ("unknown step op " ++ s.op))

namespace Definition

/-- Building, with the streams built so far by name. -/
abbrev Assembly := StateT (List (Text × Nat)) Building

def stop {α : Type} (f : Failure) : Assembly α := throw (.failure f)

def bindSteps (fs : Functions) (ref : Nat) : List (DefinitionStep × Nat) → Assembly Nat
  | [] => return ref
  | (s, i) :: rest => do
    match s.operator fs with
    | .error f => match f.report? with
      | some r => stop (r.withDetail "step" (.text (stepField i "op")))
      | none => stop f
    | .ok o =>
      let ref ← (Session.bind o ref : Building Nat)
      bindSteps fs ref rest

def ownStream (d : Definition) : Assembly (Option Nat) := do
  if !d.data.isEmpty then return some (← (Session.fromItems d.data : Building Nat))
  else if !d.source.isEmpty then return some (← (Session.fromUri d.source : Building Nat))
  else return none

/-- Builds a definition that is included through the named ones, at most so deep. -/
def assemble (fs : Functions) (loader : Option Loader) : Nat → List Text → Definition → Assembly Nat
  | 0, _, _ => throw .crash
  | depth + 1, through, d => do
    match Fields.get? (← get) d.name with
    | some ref => return ref
    | none =>
      if through.contains d.name then
        stop (Failure.malformedGraph
          ("circular include: " ++ Text.join " -> " (through ++ [d.name])))
      else
        let own ← d.ownStream
        let all ← d.includes.foldlM (fun (s : Option Nat) name => do
          match loader with
          | none => stop (Failure.invalidInput "includes" ("no loader for include " ++ name))
          | some l =>
            match l.load name with
            | .error f => stop f
            | .ok sub =>
              let inc ← assemble fs loader depth (through ++ [d.name]) sub
              match s with
              | none => return some inc
              | some s => return some (← (Session.combineWith .merge s inc : Building Nat))) own
        match all with
        | none => stop (Failure.invalidInput "source" ("definition " ++ d.name ++ " has no source"))
        | some s =>
          let ref ← bindSteps fs s d.steps.zipIdx
          modify fun built => Fields.set d.name ref built
          return ref

def build (fs : Functions) (loader : Option Loader) (d : Definition) : Building Nat := do
  let depth := (loader.map Loader.count).getD 0 + 2
  return (← (assemble fs loader depth [] d).run []).1

def graph (fs : Functions) (loader : Option Loader) (d : Definition) : Outcome (Node × Graph) :=
  let (r, session) := (d.build fs loader).run.run {}
  r.map fun ref =>
    let s := session.streams.getD ref default
    (s.tip, session.graphAt s.graph)

end Definition

end Dataflow
