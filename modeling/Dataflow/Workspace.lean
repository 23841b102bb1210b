import Dataflow.Files

/-!
# The workspace of a run

What a run reads and leaves behind: files, printed text, log entries and notes.  `Effect` is a
computation in a workspace that may fail; what it has done up to a failure stays.
-/

namespace Dataflow

inductive LogLevel where
  | trace
  | debug
  | info
  | warn
  | error
  | fatal
  | panic
deriving DecidableEq

namespace LogLevel

def name : LogLevel → Text
  | trace => "trace"
  | debug => "debug"
  | info => "info"
  | warn => "warn"
  | error => "error"
  | fatal => "fatal"
  | panic => "panic"

def rank : LogLevel → Int
  | trace => -1
  | debug => 0
  | info => 1
  | warn => 2
  | error => 3
  | fatal => 4
  | panic => 5

end LogLevel

structure LogEntry where
  level : LogLevel
  fields : List (Text × Value) := []
  message : Text

inductive Note where
  | said (t : Text)
  | saw (v : Value)

structure Workspace where
  files : Files := {}
  printed : Text := ""
  log : List LogEntry := []
  notes : List Note := []
  tools : Option Text := none
  cancelled : Bool := false

abbrev Effect := ExceptT Stop (StateM Workspace)

namespace Effect

variable {α : Type}

def fail (f : Failure) : Effect α := throw (.failure f)

def ofOutcome : Outcome α → Effect α
  | .ok a => pure a
  | .error s => throw s

def ofExcept (e : Except Failure α) : Effect α := ofOutcome (Outcome.ofExcept e)

def checkpoint : Effect Unit := do
  if (← get).cancelled then fail .cancelled

def print (t : Text) : Effect Unit := modify fun w => { w with printed := w.printed ++ t }

def log (e : LogEntry) : Effect Unit := modify fun w => { w with log := w.log ++ [e] }

def note (n : Note) : Effect Unit := modify fun w => { w with notes := w.notes ++ [n] }

def mapFailure (g : Failure → Failure) (e : Effect α) : Effect α :=
  tryCatch e fun s => match s with
    | .failure f => fail (g f)
    | .crash => throw .crash

end Effect

end Dataflow
