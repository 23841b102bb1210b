import Dataflow.Csv.Typed
import Dataflow.Json.Reader
import Dataflow.Location
import Dataflow.Pipe.Basic

/-!
# Connectors

Sources and sinks of data.  A source is a pipeline over a file, over values at hand, or over a small
dataset that stands in where nothing is known of the location.  Files are read when the first value
is pulled.  A sink writes values to a file in one of three formats: comma-separated records, one
document a line, or tables.
-/

namespace Dataflow.Connector

open Effect

def ioFailure (l : Location) (cause : Failure) : Failure :=
  (Failure.backendExecution "connector" (some cause)).withDetail "uri" (.text l.uri)

def openFile (l : Location) : Effect Files.Entry := do
  checkpoint
  ofExcept (((← get).files.openAt l.path).mapError fun f =>
    Failure.connectorUnavailable l.uri (some f))

def readText (l : Location) : Files.Entry → Except Failure Text
  | .file (.text t) => .ok t
  | .file (.table _) => .ok ""
  | .directory => .error (.file "read" l.path .isDirectory)

def cell (t : Text) : Value := if t.trim.isEmpty then .null else Value.ofCell t

/-- A record as a row: a cell for each name, empty where the record is too short. -/
def rowOf (header fields : List Text) : Row :=
  Fields.ofList (header.zipIdx.map fun (name, i) => match fields[i]? with
    | some t => (name, cell t)
    | none => (name, .null))

def csvRows (l : Location) : Effect (List (Except Failure Value)) := do
  let entry ← openFile l
  let t ← ofExcept ((readText l entry).mapError (ioFailure l))
  match Csv.records t with
  | [] => return []
  | .error f :: _ => fail (ioFailure l (Csv.recordFailure f))
  | .ok header :: rest => return rest.map fun r => match r with
    | .ok fields => .ok (.row (rowOf header fields))
    | .error f => .error (ioFailure l (Csv.recordFailure f))

def lineValue (l : Location) (line : Text) : Except Failure Value :=
  match (Json.read? line).bind Json.toValue? with
  | some v => .ok v
  | none => .error (ioFailure l (.reader "malformed document"))

def lineLimit : Nat := 16777216

/-- The documents of lines; blank lines are none.  A line that is too long ends the reading. -/
def lineValues (l : Location) : List Text → List (Except Failure Value)
  | [] => []
  | line :: lines =>
    if lineLimit ≤ line.length then
      [.error (ioFailure l (.plain "bufio.Scanner: token too long"))]
    else if line.trim.isEmpty then lineValues l lines
    else lineValue l line.trim :: lineValues l lines

def jsonlValues (l : Location) : Effect (List (Except Failure Value)) := do
  match readText l (← openFile l) with
  | .error f => return [.error (ioFailure l f)]
  | .ok t => return lineValues l (t.split "\n")

def readTable (l : Location) (chunk : Int) : Effect Frame := do
  let entry ← openFile l
  match l.format with
  | some .parquet =>
    match entry with
    | .file (.table f) => return f
    | _ => fail (ioFailure l (.reader "parquet: file has invalid magic bytes"))
  | some .csv =>
    match readText l entry with
    | .ok t => (ofOutcome (Csv.table t chunk)).mapFailure (ioFailure l)
    | .error _ => fail (ioFailure l (.reader "could not read header from file"))
  | _ => fail (Failure.invalidInput "uri" ("no columnar reader for " ++ l.uri))

def readRows (l : Location) : Effect (List Row) := do return (← readTable l 0).toRows

def items : Value → List Value
  | .null | .noList => []
  | .list xs | .sequence _ xs => xs
  | v => [v]

/-- The pipeline over what a location holds.  The settings supply the data of sources in memory. -/
def source (uri : Text) (config : Row) : Pipe :=
  let l := Location.parse uri
  match l.format with
  | some .csv => .feed (csvRows l)
  | some .jsonl => .feed (jsonlValues l)
  | some .parquet => .deferred (do return (← readRows l).map Value.row)
  | none =>
    if l.scheme = "memory" then .items (items ((Fields.get? config "data").getD .null))
    else if l.scheme = "payload" then .items [(Fields.get? config "payload").getD .null]
    else .deferred (return Row.samples.map Value.row)

def createFile (l : Location) (s : Stored) : Effect Unit := do
  let w ← get
  match w.files.write l.path s with
  | .ok files => set { w with files }
  | .error f => fail (Failure.connectorUnavailable l.uri (some f))

/-- What a writer that holds back up to 4096 bytes has passed on and what it holds, after more
text. -/
def spill (passed held t : Text) : Text × Text :=
  let size := 4096
  if held.length + t.length ≤ size then (passed, held ++ t)
  else if held.isEmpty then (passed ++ t, "")
  else
    let room := size - held.length
    let passed := passed ++ held ++ Text.take room t
    let rest := Text.drop room t
    if rest.length ≤ size then (passed, rest) else (passed ++ rest, "")

/-- Writes one document a line.  What has been passed on before a failure stays in the file. -/
def writeLines (l : Location) : Text → Text → List Value → Effect Unit
  | passed, held, [] => createFile l (.text (passed ++ held))
  | passed, held, v :: vs => do
    checkpoint
    match v.toJson? with
    | none => fail (ioFailure l (.reader "json: unsupported value"))
    | some j =>
      let (passed, held) := spill passed held (j.print ++ "\n")
      createFile l (.text passed)
      writeLines l passed held vs

def writeFrame (l : Location) (f : Frame) : Effect Unit := do
  checkpoint
  match l.format with
  | some .csv => createFile l (.text (Csv.ofFrame f))
  | some .parquet => createFile l (.table f)
  | _ => do
    createFile l (.text "")
    fail (Failure.invalidInput "uri" ("no columnar writer for " ++ l.uri))

def asRow (key : Text) (v : Value) : Row := v.asRow?.getD [(key, v)]

def write (l : Location) (vs : List Value) : Effect Nat := do
  match l.format with
  | none => fail (Failure.invalidInput "uri" ("not a file location: " ++ l.uri))
  | some .jsonl => do
    createFile l (.text "")
    writeLines l "" "" vs
    return vs.length
  | some _ => do
    let f ← ofOutcome (Frame.ofRows (vs.map (asRow "value")))
    writeFrame l f
    return vs.length

end Dataflow.Connector
