import Dataflow.Config.Basic
import Dataflow.Summary
import Dataflow.Target

/-!
# Applications

An application is a configuration at work: it has the registry with the configured plugins, compiles
graphs for the targets in it with the configured options, and keeps a summary.
-/

namespace Dataflow

namespace Target

def compiling (lib : Library) (t : Target) (g : Graph) : Effect (List (Text × Artifact)) :=
  ExceptT.mk fun w =>
    let c := t.compile lib g w
    (c.outcome, c.workspace)

end Target

namespace Artifact

/-- A bound on the pulls of one pass, far beyond what memory can hold. -/
def limit : Nat := 1000000000

/-- Runs an artifact; the values that reach it.  Text cannot be run. -/
def drain (backend : Text) : Artifact → Effect (List Value)
  | .flow f => do
    match ← f.run limit with
    | (vs, none) => return vs
    | (_, some e) => Effect.fail e
  | .tabular t => do
    let f ← match t with
      | .lazy f => f.materialize
      | .action a => a.run
    return f.toRows.map .row
  | _ => Effect.fail (Failure.unsupported backend "run")

/-- The texts of artifacts, if all of them are text; programs are merged into one, which comes
first. -/
def texts? (as : List Artifact) : Option (List Text) := do
  let shown ← as.mapM fun a => match a with
    | .text t => some (some t)
    | .drawing d => some (some d.text)
    | .program _ => some none
    | _ => none
  let programs := as.filterMap fun a => match a with
    | .program p => some p
    | _ => none
  let rest := shown.filterMap id
  return if programs.isEmpty then rest else (Program.merge programs).text :: rest

end Artifact

structure App where
  config : Config
  version : Text
  registry : Registry Target

namespace App

/-- An application of a configuration, which is filled in and checked; its plugins are installed. -/
def create (c : Config) (version : Text) : Except Failure App := do
  let config := c.withDefaults
  config.check
  let i := Target.registry.install Target.plugins config.compiler.plugins
  match i.failure with
  | some f => .error f
  | none => return { config, version, registry := i.registry }

/-- A target's name; an empty one stands for the configured target. -/
def targetName (a : App) (name : Text) : Text := name.orElse a.config.compiler.defaultTarget

def target (a : App) (name : Text) : Except Failure Target :=
  let name := a.targetName name
  a.registry.resolve name ((a.config.options? name).getD [])

def summary (a : App) : Summary := { service := a.config.name, version := a.version }

def compile (a : App) (lib : Library) (g : Graph) (name : Text) :
    StateT Summary Effect (List (Text × Artifact)) := do
  let t ← (Effect.ofExcept (a.target name) : Effect Target)
  let arts ← (t.compiling lib g : Effect _)
  let record : CompileRecord := { backend := t.name, nodes := g.size, targets := arts.length }
  modify fun s => { s with compiles := s.compiles ++ [record] }
  return arts

end App

end Dataflow
