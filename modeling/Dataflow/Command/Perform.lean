import Dataflow.App
import Dataflow.Command.Line
import Dataflow.Config.Load
import Dataflow.Definition.Build
import Dataflow.Graph.Document
import Dataflow.Graph.Levels
import Dataflow.Lifecycle
import Dataflow.Release

/-!
# Commands

What the commands do.  They print to one stream and report failures on another, and end with a status
that tells the kind of failure.  Which files a command line may read, as far as the files known so
far tell, are those of the configuration, that of the graph, the definitions it includes and the
sources of its nodes.
-/

namespace Dataflow.Command

structure Console where
  workspace : Workspace := {}
  out : Text := ""
  err : Text := ""

abbrev Act := ExceptT Stop (StateM Console)

/-- What is known from outside: the variables of the environment, and which build this is. -/
structure Surroundings where
  environment : Environment.Variables := []
  release : Release := Release.ofSettings "dev" "" "" ""

namespace Act

def fail {α : Type} (f : Failure) : Act α := throw (.failure f)

def ofExcept {α : Type} (r : Except Failure α) : Act α := liftExcept (Outcome.ofExcept r)
where
  liftExcept : Outcome α → Act α
    | .ok a => return a
    | .error s => throw s

def inside {α : Type} (e : Effect α) : Act α :=
  ExceptT.mk fun c =>
    let (r, w) := e.run.run c.workspace
    (r, { c with workspace := w })

def print (t : Text) : Act Unit := modify fun c => { c with out := c.out ++ t }

def printError (t : Text) : Act Unit := modify fun c => { c with err := c.err ++ t }

def printJson (j : Json) : Act Unit := print (j.printIndented ++ "\n")

end Act

/-- Cells in columns: each column but the last is as wide as its widest cell and two blanks. -/
def columns (rows : List (List Text)) : Text :=
  let width (i : Nat) : Nat := (rows.map fun r => (r.getD i "").chars.length).foldl max 0 + 2
  Text.lines (rows.map fun r => Text.concat (r.zipIdx.map fun (t, i) =>
    if i + 1 = r.length then t else t ++ Text.replicate (width i - t.chars.length) " "))

/-- The graph in a file: a document of a graph, or a definition, whose includes are looked for beside
it. -/
def loadGraph (fs : Files) (path : Text) : Outcome Graph :=
  if path.extension.sameFold ".json" then
    match fs.read path with
    | .ok t => Outcome.ofExcept (Graph.ofText t)
    | .error f =>
      if f.isMissingFile then Outcome.fail (Failure.notFound "graph" path)
      else Outcome.fail ((Failure.invalidInput "graph" f.text).withDetail "path" (.text path))
  else do
    let d ← Outcome.ofExcept (Definition.load fs path)
    let (_, g) ← d.graph .standard (some (Loader.ofFiles fs [path.parentPath]))
    return g

def readGraph (path : Text) : Act Graph := do
  match loadGraph (← get).workspace.files path with
  | .ok g => return g
  | .error s => throw s

def start (s : Surroundings) (o : Options) : Act App := do
  let c ← Act.ofExcept
    (Config.load (← get).workspace.files s.environment { configFile := o.configFile })
  let logging := { c.logging with level := o.logLevel.orElse c.logging.level }
  Act.ofExcept (App.create { c with logging } s.release.short)

def compile (a : App) (path target : Text) : Act Unit := do
  let g ← readGraph path
  let artifacts (name : Text) : Act (Option (List Text)) := do
    let (arts, _) ← Act.inside ((a.compile .empty g name).run a.summary)
    return Artifact.texts? (arts.map Prod.snd)
  match ← artifacts target with
  | some ts => Act.print (Text.lines ts)
  | none => Act.print (Text.lines ((← artifacts "string").getD []))

def drain (backend : Text) (art : Artifact) : Act (Except Failure (List Value)) :=
  tryCatch (do return .ok (← Act.inside (art.drain backend))) fun s => match s with
    | .failure f => return .error f
    | .crash => throw .crash

def printValues (backend : Text) : List Value → Act Unit
  | [] => return
  | v :: vs => do
    match v.toJson? with
    | some j =>
      Act.print (j.print ++ "\n")
      printValues backend vs
    | none => Act.fail (Failure.backendExecution backend (some (.reader (v.jsonFault?.getD ""))))

def run (a : App) (path target : Text) (summary : Bool) : Act Unit := do
  let backend := a.targetName target
  if backend ≠ Streaming.name && backend ≠ Columnar.name then
    Act.fail ((Failure.invalidInput "target" "run needs an executable backend: native or vector").withDetail
      "target" (.text backend))
  let g ← readGraph path
  let (arts, done) ← Act.inside ((a.compile .empty g backend).run a.summary)
  let results ← arts.mapM fun (id, art) => do return (id, ← drain backend art)
  let sinks : List SinkRecord := results.map fun (id, r) => match r with
    | .ok vs => { target := shortId id, rows := vs.length }
    | .error f => { target := shortId id, rows := 0, failure := some f }
  if summary then Act.printError ({ done with sinks } : Summary).text
  for (_, r) in results do
    if let .error f := r then Act.fail f
  for (_, r) in results do
    if let .ok vs := r then printValues backend vs

def backends (a : App) (json : Bool) : Act Unit := do
  let es := a.registry.entries
  if json then
    let entry (n : Text) (o : Origin) : Json := .object [("name", .text n), ("origin", .text o.name)]
    Act.printJson (.array (es.map fun (n, o) => entry n o))
  else Act.print (columns (es.map fun (n, o) => [n, o.name]))

def health (a : App) (json : Bool) : Act Unit := do
  let w := (← get).workspace
  let r := a.registry.health Target.dialects (Target.runtime w) a.config.name a.version
  if json then Act.printJson r.toJson
  else
    Act.print (columns (r.components.map fun h =>
      [h.name, h.status.name, (Fields.get? h.details "origin").getD "", h.message]))
    Act.print ("overall: " ++ r.status.name ++ "\n")

def graphJson (g : Graph) : Act Json := do
  match g.toJson? with
  | .ok (some j) => return j
  | .ok none =>
    let faults := g.nodes.filterMap fun n =>
      (Value.displayableFields? n.config).bind fun fields => (Value.row fields).jsonFault?
    Act.fail (.reader ("json: error calling MarshalJSON for type *ir.Graph: " ++ faults.headD ""))
  | .error s => throw s

def inspect (path : Text) (json : Bool) : Act Unit := do
  let g ← readGraph path
  let levels ← Act.ofExcept g.levels
  let document ← graphJson g
  if json then
    let ls : Json := if levels.isEmpty then .null else .array (levels.map Json.ofTexts)
    Act.printJson (.object [("graph", document), ("levels", ls)])
  else
    Act.printJson document
    let node (id : Text) : Text := match g.node? id with
      | some n => n.op.name ++ "(" ++ n.shortId ++ ")"
      | none => ""
    Act.print (Text.lines (levels.zipIdx.map fun (ids, i) =>
      "level " ++ Text.ofNat i ++ ": " ++ Text.join " " (ids.map node)))

def usage : Text :=
  Text.lines (("Usage: " ++ program ++ " [flags] <command>") :: specs.map fun s =>
    "  " ++ s.name ++ Text.concat (s.flags.map fun f => " [" ++ f.display ++ "]")
      ++ (if s.arity = some 1 then " <pipeline.yaml|graph.json>" else ""))

def perform (s : Surroundings) (o : Options) : Request → Act Unit
  | .help => Act.print usage
  | .compile path target => do compile (← start s o) path target
  | .run path target summary => do run (← start s o) path target summary
  | .backends isHealth => do
    let a ← start s o
    if isHealth then health a o.json else backends a o.json
  | .inspect path => do
    let _ ← start s o
    inspect path o.json
  | .version =>
    if o.json then Act.printJson s.release.toJson
    else Act.print (program ++ " " ++ s.release.text ++ "\n")

/-- The report of a failure and the status it ends with.  A failure without a code is an internal
one. -/
def report (json : Bool) (f : Failure) : Text × Nat :=
  let r := f.report?.getD (Failure.internal (some f))
  let t : Text :=
    if json then
      match r.response? with
      | some j => j.printIndented ++ "\n"
      | none => ""
    else "Error: " ++ f.text ++ "\n"
  (t, r.code.exitStatus)

/-- Runs a command line; the status it ends with, if it does not break off. -/
def execute (s : Surroundings) (words : List Text) (w : Workspace) : Option Nat × Console :=
  let (o, request) := parse words
  let (r, c) : Outcome Unit × Console := match request with
    | .error f => (Outcome.fail f, { workspace := w })
    | .ok q => (perform s o q).run.run { workspace := w }
  match r with
  | .ok () => (some 0, c)
  | .error .crash => (none, c)
  | .error (.failure f) =>
    let (t, status) := report o.json f
    (some status, { c with err := c.err ++ t })

def Request.path? : Request → Option Text
  | compile path _ | run path _ _ | inspect path => some path
  | _ => none

def includedPaths (fs : Files) (dir : Text) : List Text :=
  fs.entries.flatMap fun (_, s) => match s with
    | .text t => match Definition.read? t with
      | some d => d.includes.flatMap fun name =>
        [dir.joinPath (name ++ ".yaml"), dir.joinPath (name ++ ".yml")]
      | none => []
    | .table _ => []

def nodePaths (g : Graph) : List Text :=
  g.nodes.flatMap fun n => match n.text "uri" "" with
    | .ok uri =>
      let l := Location.parse uri
      if l.isFile then [l.path, l.path.parentPath] else []
    | .error _ => []

def wanted (words : List Text) (fs : Files) : List Text :=
  let (o, request) := parse words
  let own : List Text := match request.toOption.bind Request.path? with
    | none => []
    | some path =>
      path :: includedPaths fs path.parentPath ++ match loadGraph fs path with
        | .ok g => nodePaths g
        | .error _ => []
  (o.configFile :: Config.configPaths serviceName none ++ Config.envPaths serviceName ++ own).filter
    fun p => !p.isEmpty && p ≠ "."

end Dataflow.Command
