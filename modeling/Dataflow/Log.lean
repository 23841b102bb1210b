import Dataflow.Json.Reader
import Dataflow.Message.Value
import Dataflow.Moment.Text
import Dataflow.Text.Case
import Dataflow.Workspace

/-!
# Logs

A logger keeps the entries that matter enough and writes each on a line: as a document, or in a form
for reading.  Its own fields come before those of the entry, and of two fields with one name the
later counts.
-/

namespace Dataflow

structure LogSettings where
  level : Text := ""
  format : Text := ""
  output : Text := ""
  noColor : Bool := false
  timestamp : Bool := false
  caller : Bool := false
deriving DecidableEq

namespace LogSettings

/-- Settings that are not given take their defaults; entries are always dated. -/
def withDefaults (s : LogSettings) : LogSettings :=
  { s with
    level := s.level.orElse "info"
    format := s.format.orElse "console"
    output := s.output.orElse "stderr"
    timestamp := true }

def unlisted (name : Text) (allowed : List Text) (got : Text) : Option Text :=
  if allowed.contains got then none
  else some (name ++ " must be one of [" ++ Text.join " " allowed ++ "] (got: " ++ got ++ ")")

def fault? (s : LogSettings) : Option Text :=
  (unlisted "logging.level" ["trace", "debug", "info", "warn", "error", "disabled"] s.level).or
    ((unlisted "logging.format" ["json", "console", "pretty", "text"] s.format).or
      (unlisted "logging.output" ["stdout", "stderr"] s.output))

/-- The least rank that is kept: that of a named level, or a small number; any other level is
`info`. -/
def leastRank (s : LogSettings) : Int :=
  let level := s.level.lowercase
  let levels : List LogLevel := [.trace, .debug, .info, .warn, .error, .fatal, .panic]
  match levels.find? (·.name = level) with
  | some l => l.rank
  | none =>
    if level = "disabled" then 7
    else match level.toInt? with
      | some n => if -128 ≤ n && n ≤ 127 then n else LogLevel.info.rank
      | none => LogLevel.info.rank

def isConsole (s : LogSettings) : Bool :=
  let formats : List Text := ["console", "pretty", "text"]
  formats.contains s.format.lowercase

end LogSettings

namespace Value

mutual

def jsonFault? : Value → Option Text
  | float x => if x.isFinite then none else some ("json: unsupported value: " ++ (float x).toMessage)
  | single x => if x.isFinite then none else some ("json: unsupported value: " ++ (single x).toMessage)
  | numeral t =>
    if t.isEmpty || Json.isNumber t then none
    else some ("json: invalid number literal " ++ t.quoted)
  | list xs | sequence _ xs => jsonFaultAll? xs
  | row fields | lexicon _ _ fields | record _ fields => jsonFaultFields? fields
  | dictionary _ entries => jsonFaultEntries? entries
  | reference _ _ v => jsonFault? v
  | v => if (toJson? v).isSome then none else some ("json: unsupported type: " ++ v.typeName)

def jsonFaultAll? : List Value → Option Text
  | [] => none
  | v :: vs => (jsonFault? v).or (jsonFaultAll? vs)

def jsonFaultFields? : List (Text × Value) → Option Text
  | [] => none
  | (_, v) :: fs => (jsonFault? v).or (jsonFaultFields? fs)

def jsonFaultEntries? : List (Value × Value) → Option Text
  | [] => none
  | (_, v) :: es => (jsonFault? v).or (jsonFaultEntries? es)

end

def logged (v : Value) : Json :=
  v.toJson?.getD (.text ("marshaling error: " ++ (v.jsonFault?.getD "")))

end Value

structure Logger where
  leastRank : Int
  console : Bool
  fields : List (Text × Json) := []

namespace Logger

def ofSettings (s : LogSettings) (service : Text) : Logger :=
  { leastRank := s.leastRank, console := s.isConsole
    fields := if service.isEmpty then [] else [("service", .text service)] }

def withFields (l : Logger) (fields : List (Text × Json)) : Logger :=
  { l with fields := l.fields ++ fields }

def withRow (l : Logger) (r : Row) : Logger := l.withFields (r.map fun (k, v) => (k, v.logged))

def withComponent (l : Logger) (name : Text) : Logger := l.withFields [("component", .text name)]

def withNode (l : Logger) (id op : Text) : Logger :=
  l.withFields [("node_id", .text (shortId id)), ("op", .text op)]

def withFailure (l : Logger) : Option Failure → Logger
  | some f => l.withFields [("error", .text f.text)]
  | none => l

def members? (l : Logger) (level : LogLevel) (message : Text) (fields : List Row) :
    Option (List (Text × Json)) :=
  if level.rank < l.leastRank then none
  else
    let given := fields.flatMap fun r => r.map fun (k, v) => (k, v.logged)
    let last : List (Text × Json) := if message.isEmpty then [] else [("message", .text message)]
    some (Fields.ofList (Json.displayedMembers
      (("level", .text level.name) :: (l.fields ++ given ++ last))))

def levelMark (level : Text) : Text :=
  if level = "debug" then "DBG"
  else if level = "info" then "INF"
  else if level = "warn" then "WRN"
  else if level = "error" then "ERR"
  else level.uppercase

/-- The time on a line for reading: the time of day of a timestamp or of a number of seconds since
1970, or a text as it is. -/
def timeText : Json → Text
  | .text t => ((Moment.zoned? t).map Moment.timeText).getD t
  | .number t =>
    match (t.toInt?).filter fun n => Int64.minValue.toInt ≤ n && n ≤ Int64.maxValue.toInt with
    | some n =>
      let s := (n % 86400).toNat
      ({ year := 1970, month := 1, day := 1, hour := s / 3600, minute := s / 60 % 60,
         second := s % 60 } : Moment).timeText
    | none => t
  | _ => "<nil>"

def messageText : Json → Text
  | .null => ""
  | j => Place.fill { verb := 's' } j.asWritten

def callerText : Json → Text
  | .text t => if t.isEmpty then "" else t ++ " >"
  | _ => ""

/-- A field's value on a line for reading; a text with blanks, quotes or characters outside ASCII
stands in quotes. -/
def fieldText : Json → Text
  | .text t =>
    if t.any fun b => b < 0x20 || 0x7E < b || b = byte ' ' || b = byte '\\' || b = byte '"' then t.quoted
    else t
  | j => j.write false

/-- The fields on a line for reading, an error first; beside an error, a field needs a name. -/
def shown (members : List (Text × Json)) : List (Text × Json) :=
  let hidden : List Text := ["level", "time", "message", "caller"]
  let (errors, others) := (members.filter fun (k, _) => !hidden.contains k).partition fun (k, _) =>
    k = "error"
  if errors.isEmpty then others else errors ++ others.filter (!·.1.isEmpty)

/-- An entry on a line for reading: its time, level, place and message, and then its fields. -/
def line (members : List (Text × Json)) : Text :=
  let get (key : Text) : Json := (Fields.get? members key).getD .null
  let parts : List Text := [timeText (get "time"),
    "[" ++ levelMark ((get "level").asWritten.describe false) ++ "]",
    callerText (get "caller"), messageText (get "message")]
  let fields := (shown members).map fun (k, j) => k ++ "=" ++ fieldText j
  Text.join " " (parts.filter (!·.isEmpty) ++ fields) ++ "\n"

def pairs : List Value → Row
  | .text k :: v :: rest => Fields.update [(k, v)] (pairs rest)
  | _ :: _ :: rest => pairs rest
  | _ => []

def failureFields (op : Text) (f : Failure) : Row := [("error", .text f.text), ("op", .text op)]

def durationFields (op : Text) (nanos : Int) : Row :=
  [("duration_ms", .sized .i64 (nanos.tdiv 1000000)), ("op", .text op)]

end Logger

end Dataflow
