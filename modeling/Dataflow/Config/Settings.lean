import Dataflow.Config.Basic
import Dataflow.Duration
import Dataflow.Yaml.Plain

/-!
# Settings

Settings are a row of values and of further rows, its sections.  A key with dots leads through
sections.  Settings are read into a configuration generously: a text that spells a number is one, a
number can stand for a text, and a text with commas for a list.
-/

namespace Dataflow.Settings

/-- Sets a value at the end of a path of sections; what stands in its way is replaced. -/
def setAt : List Text → Value → Row → Row
  | [], _, r => r
  | [k], v, r => Fields.set k v r
  | k :: ks, v, r =>
    let inner : Row := match Fields.get? r k with
      | some (.row s) => s
      | _ => []
    Fields.set k (.row (setAt ks v inner)) r

/-- Whether there is a value at a path, or in its way. -/
def occupied : List Text → Row → Bool
  | [], _ => true
  | k :: ks, r => match Fields.get? r k with
    | none => false
    | some (.row s) => occupied ks s
    | some _ => true

mutual

/-- The values below a path, each with its own path.  Names are in lower case, and a name with dots
counts as a path. -/
def leaves (path : List Text) : Value → List (List Text × Value)
  | .row fields => leavesOf path fields
  | .dictionary _ entries => leavesIn path entries
  | v => [(path, v)]

def leavesOf (path : List Text) : List (Text × Value) → List (List Text × Value)
  | [] => []
  | (k, v) :: fields => leaves (path ++ k.lowercase.split ".") v ++ leavesOf path fields

def leavesIn (path : List Text) : List (Value × Value) → List (List Text × Value)
  | [] => []
  | (k, v) :: entries => leaves (path ++ k.toMessage.lowercase.split ".") v ++ leavesIn path entries

end

def layered (first second : Row) : Row :=
  (leaves [] (.row second)).foldl (fun r (path, v) => match v with
    | .null => r
    | v => if occupied path first then r else setAt path v r) first

/-! ### Generous reading -/

def fullNumber : NumberStyle := ⟨-400, 400, 1⟩

def text? : Value → Option Text
  | .text t => some t
  | .bool b => some (if b then "1" else "0")
  | .int n => some (Text.ofInt n.toInt)
  | .sized _ n => some (Text.ofInt n)
  | .float x => some (fullNumber.float x)
  | _ => none

/-- An integer in the base that its first digits name; underscores may stand between digits. -/
def integer? (t : Text) : Option Int64 :=
  let (negative, ds) := NumberReader.unsigned t
  let (hex, before, rest) : Bool × NumberReader.Mark × List UInt8 := match ds with
    | 48 :: m :: r =>
      let mark := Byte.toLower m
      if mark = byte 'x' || mark = byte 'o' || mark = byte 'b' then (mark = byte 'x', .digit, r)
      else (false, .start, ds)
    | ds => (false, .start, ds)
  if NumberReader.underscoresFit hex before rest then do
    let n ← Yaml.natural? (ds.filter (· ≠ byte '_'))
    Integer64.ofInt? (if negative then -n else n)
  else none

def int? : Value → Option Int64
  | .text t => if t.isEmpty then some 0 else integer? t
  | .bool b => some (if b then 1 else 0)
  | .int n => some n
  | .sized _ n => some (Int64.ofInt n)
  | .float x => some (Float64.toInt x)
  | _ => none

def truth? (t : Text) : Option Bool :=
  let yes : List Text := ["1", "t", "T", "true", "TRUE", "True"]
  let no : List Text := ["0", "f", "F", "false", "FALSE", "False"]
  if yes.contains t then some true else if no.contains t then some false else none

def bool? : Value → Option Bool
  | .text t => if t.isEmpty then some false else truth? t
  | .bool b => some b
  | .int n => some (n ≠ 0)
  | .sized _ n => some (n ≠ 0)
  | .float x => some (x != 0)
  | _ => none

def float? : Value → Option Float
  | .text t => if t.isEmpty then some 0 else (readFloat t).toOption
  | .bool b => some (if b then 1 else 0)
  | .int n => some (Float64.ofInt n.toInt)
  | .sized _ n => some (Float64.ofInt n)
  | .float x => some x
  | _ => none

/-- A list of texts; a single value is a list of one, and an element that is nothing is empty. -/
def texts? : Value → Option (List Text)
  | .text t => some (if t.isEmpty then [] else t.split ",")
  | .list vs => vs.mapM fun v => match v with
    | .null => some ""
    | v => text? v
  | v => (text? v).map fun t => [t]

def duration? : Value → Option Int
  | .text t => Duration.parse? t
  | v => (int? v).map Int64.toInt

def find? (r : Row) (key : Text) : Option Value :=
  (Fields.get? r key).or ((r.find? fun (k, _) => k.sameFold key).map Prod.snd)

def field? {α : Type} (read? : Value → Option α) (r : Row) (key : Text) (old : α) : Option α :=
  match find? r key with
  | none | some .null => some old
  | some v => read? v

def section? (r : Row) (key : Text) : Option Row :=
  field? (fun v => match v with
    | .row s => some s
    | .stamp _ => some []
    | _ => none) r key []

def into? (c : Config) (r : Row) : Option Config := do
  let logging ← section? r "logging"
  let compiler ← section? r "compiler"
  let streaming ← section? r "native"
  let columnar ← section? r "vector"
  let tracing ← section? r "tracing"
  let metrics ← section? r "metrics"
  return {
    name := ← field? text? r "name" c.name
    environment := ← field? text? r "environment" c.environment
    logging := {
      level := ← field? text? logging "level" c.logging.level
      format := ← field? text? logging "format" c.logging.format
      output := ← field? text? logging "output" c.logging.output
      noColor := ← field? bool? logging "no_color" c.logging.noColor
      timestamp := ← field? bool? logging "timestamp" c.logging.timestamp
      caller := ← field? bool? logging "caller" c.logging.caller }
    compiler := {
      defaultTarget := ← field? text? compiler "default_target" c.compiler.defaultTarget
      plugins := ← field? texts? compiler "plugins" c.compiler.plugins }
    streaming := {
      echoSink := ← field? bool? streaming "echo_sink" c.streaming.echoSink
      workers := ← field? int? streaming "workers" c.streaming.workers }
    chunkSize := ← field? int? columnar "chunk_size" c.chunkSize
    tracing := {
      enabled := ← field? bool? tracing "enabled" c.tracing.enabled
      endpoint := ← field? text? tracing "endpoint" c.tracing.endpoint
      isInsecure := ← field? bool? tracing "insecure" c.tracing.isInsecure
      sampleRate := ← field? float? tracing "sample_rate" c.tracing.sampleRate }
    metrics := {
      enabled := ← field? bool? metrics "enabled" c.metrics.enabled
      endpoint := ← field? text? metrics "endpoint" c.metrics.endpoint
      isInsecure := ← field? bool? metrics "insecure" c.metrics.isInsecure
      interval := ← field? duration? metrics "interval" c.metrics.interval } }

end Dataflow.Settings
