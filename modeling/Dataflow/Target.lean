import Dataflow.Drawing
import Dataflow.Frame.Lower
import Dataflow.Health
import Dataflow.Outline
import Dataflow.Pipe.Lower
import Dataflow.External
import Dataflow.Script.Kernel

/-!
# Targets

The backends at hand under one type.  A target compiles a graph to artifacts, which can be shown or
run.  `Target.registry` holds the built-in ones; the drawing backend is a plugin.
-/

namespace Dataflow

inductive Artifact where
  | text (t : Text)
  | program (p : Program)
  | drawing (d : Drawing)
  | flow (f : Flow)
  | tabular (t : Tabular)

inductive Target where
  | outline
  | streaming (o : Streaming.Options)
  | columnar (chunk : Int)
  | script (d : Dialect)
  | kernel (d : KernelDialect)
  | drawing

/-- The artifacts of a graph by node, with the nodes that were lowered, in order, and what was left
behind. -/
structure Compiled where
  outcome : Outcome (List (Text × Artifact))
  lowered : List Text
  workspace : Workspace

def Backend.compiled {α : Type} (b : Backend α) (wrap : α → Artifact) (g : Graph) (w : Workspace) :
    Compiled :=
  let (r, c) := b.compile g w
  { outcome := r.map fun ts => ts.map fun (id, a) => (id, wrap a)
    lowered := c.memo.map Prod.fst
    workspace := c.workspace }

namespace Target

def name : Target → Text
  | outline => Outline.backend.name
  | streaming _ => Streaming.name
  | columnar _ => Columnar.name
  | script d => Script.backendName d
  | kernel d => Kernel.backendName d
  | drawing => Drawing.backend.name

def compile (lib : Library) : Target → Graph → Workspace → Compiled
  | outline => Outline.backend.compiled .text
  | streaming o => (Streaming.backend lib o).compiled .flow
  | columnar chunk => (Columnar.backend lib chunk).compiled .tabular
  | script d => (Script.backend d).compiled .program
  | kernel d => (Kernel.backend d).compiled .program
  | drawing => Drawing.backend.compiled .drawing

/-- What is known of the runtime of a target: the tool of a kernel has to be there, and its first
line about its version is reported. -/
def runtime (w : Workspace) : Target → Runtime
  | kernel d =>
    if (External.tool? w d.tool).isNone then { available := false }
    else
      { version := match External.run w d.tool ["--version"] [] with
          | .ok (f, none) => f.firstLine
          | _ => "" }
  | _ => {}

def dialectOf {δ : Type} (family : Text) (lookup? : Text → Option δ) (config : Row) :
    Except Failure δ :=
  let name := ((Fields.get? config "dialect").getD .null).toText?.getD ""
  match lookup? name with
  | some d => .ok d
  | none => .error (Failure.unknownBackend (family ++ ":" ++ name))

def register (r : Registry Target) : Registry Target :=
  ((((r.addBuiltin "string" fun _ => .ok outline).addBuiltin
    "native" fun c => (Streaming.Options.ofConfig c).map streaming).addBuiltin
    "vector" fun c => (Columnar.chunkOf c).map columnar).addBuiltin
    "script:" fun c => (dialectOf "script" Dialect.lookup? c).map script).addBuiltin
    "kernel:" fun c => (dialectOf "kernel" KernelDialect.lookup? c).map kernel

def registry : Registry Target := register {}

def plugins : List (Text × Factory Target) := [("dot", fun _ => .ok drawing)]

def dialects (entry : Text) : List Text :=
  if entry.endsWith ":*" then
    let family := entry.take (entry.length - 2)
    let names : List Text :=
      if family = "script" then Dialect.all.map Dialect.name
      else if family = "kernel" then KernelDialect.all.map KernelDialect.name
      else []
    names.map fun d => family ++ ":" ++ d
  else [entry]

end Target

def replacedEntry (name : Text) : LogEntry :=
  { level := .warn, message := "backend plugin replaced"
    fields := [("component", .text "backend"), ("backend", .text name)] }

end Dataflow
