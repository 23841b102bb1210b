import Dataflow.Files
import Dataflow.Text.Path
import Dataflow.Validation.Rule
import Dataflow.Yaml.Decode

/-!
# Definitions of pipelines

A definition is a pipeline in a document: a source or rows of its own, definitions to include, and
steps.  It is read from YAML and checked before it is built.
-/

namespace Dataflow

structure DefinitionStep where
  op : Text := ""
  fn : Text := ""
  expr : Text := ""
  kind : Text := ""
  params : Option Row := none
  size : Int64 := 0
  init : Value := .null
  uri : Text := ""

structure Definition where
  name : Text := ""
  source : Text := ""
  data : List Value := []
  includes : List Text := []
  steps : List DefinitionStep := []

namespace Definition

def stepField (i : Nat) (name : Text) : Text := "steps[" ++ Text.ofNat i ++ "]." ++ name

def operators : List Text := ["map", "filter", "window", "reduce", "custom", "sink"]

def form (d : Definition) : List FormField :=
  ⟨"name", .text d.name, [.required]⟩ :: FormField.each "steps" d.steps fun place s =>
    [⟨place ++ ".op", .text s.op, [.required, .oneOf operators]⟩,
     ⟨place ++ ".fn", .text s.fn, [.requiredIf (s.op = "map" || s.op = "filter" || s.op = "reduce")]⟩,
     ⟨place ++ ".kind", .text s.kind, [.requiredIf (s.op = "custom")]⟩]

def relations (d : Definition) : Checks :=
  let cs : Checks := Checks.require []
    (!d.source.isEmpty || !d.data.isEmpty || !d.includes.isEmpty) "source"
    "is required when there is no data or includes"
  let cs := cs.require (d.source.isEmpty || d.data.isEmpty) "data" "cannot be combined with source"
  d.steps.zipIdx.foldl (fun cs (s, i) =>
    if s.op = "window" then cs.atLeast (stepField i "size") s.size.toInt 1 else cs) cs

/-- Checks a definition: first its fields, and if these are right, how they go together. -/
def check (d : Definition) : Except Failure Unit := do
  (Checks.form [] d.form).result
  d.relations.result

/-! ### Reading -/

open Yaml (Decoding)

def stepFields : Decoding.RecordFields DefinitionStep :=
  { names := ["op", "fn", "expr", "kind", "params", "size", "init", "uri"]
    set := fun name referred n s => do
      if name = "params" then return { s with params := ← Decoding.row referred n }
      else if name = "size" then return { s with size := (← Decoding.int referred n).getD s.size }
      else if name = "init" then return { s with init := ← Decoding.value referred n }
      else
        match ← Decoding.text referred n with
        | none => return s
        | some t =>
          return if name = "op" then { s with op := t }
            else if name = "fn" then { s with fn := t }
            else if name = "expr" then { s with expr := t }
            else if name = "kind" then { s with kind := t }
            else { s with uri := t } }

/-- How the fields of a definition are read.  Of the rows those that are nothing stay. -/
def fields : Decoding.RecordFields Definition :=
  { names := ["name", "source", "data", "includes", "steps"]
    set := fun name referred n d => do
      if name = "data" then
        let element (referred : Bool) (n : Yaml.Node) : Decoding (Option Value) := do
          return some (((← Decoding.row referred n).map Value.row).getD .noRow)
        return { d with data := ← Decoding.list element referred n }
      else if name = "includes" then
        return { d with includes := ← Decoding.list Decoding.text referred n }
      else if name = "steps" then
        return { d with steps := ← Decoding.list (stepFields.record {}) referred n }
      else
        match ← Decoding.text referred n with
        | none => return d
        | some t => return if name = "name" then { d with name := t } else { d with source := t } }

def read? (t : Text) : Option Definition :=
  Decoding.read? (fun n => do return (← fields.record {} false n).getD {}) {} t

def parse (t : Text) : Except Failure Definition := do
  match read? t with
  | none =>
    .error ((Failure.invalidInput "definition" "cannot parse YAML").withCause
      (some (.reader "yaml: malformed document")))
  | some d =>
    d.check
    return d

def load (fs : Files) (path : Text) : Except Failure Definition :=
  match fs.read path with
  | .error f =>
    if f.isMissingFile then .error (Failure.notFound "definition" path)
    else .error ((Failure.invalidInput "definition" ("cannot read " ++ path)).withCause (some f))
  | .ok t => (parse t).mapError fun f => match f.report? with
    | some r => r.withDetail "path" (.text path)
    | none => f

end Definition

structure Loader where
  load : Text → Except Failure Definition
  count : Nat

namespace Loader

def ofList (ds : List (Text × Definition)) : Loader :=
  { load := fun name => match Fields.get? ds name with
      | some d => .ok d
      | none => .error (Failure.notFound "definition" name)
    count := ds.length }

def parse (texts : List (Text × Text)) : Except Failure Loader := do
  return ofList (← (Fields.ofList texts).mapM fun (name, t) => do return (name, ← Definition.parse t))

def firstOf (fs : Files) (missing : Failure) : List Text → Except Failure Definition
  | [] => .error missing
  | path :: paths =>
    match Definition.load fs path with
    | .error f => if f.hasCode .notFound then firstOf fs missing paths else .error f
    | .ok d => .ok d

def ofFiles (fs : Files) (dirs : List Text) : Loader :=
  { load := fun name =>
      firstOf fs ((Failure.notFound "definition" name).withDetail "dirs" (.texts dirs))
        (dirs.flatMap fun dir => [dir.joinPath (name ++ ".yaml"), dir.joinPath (name ++ ".yml")])
    count := fs.entries.length }

end Loader

end Dataflow
