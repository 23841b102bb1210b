import Dataflow.Shell.Execution
import Dataflow.Workspace

/-!
# Programs of the system

Running a program and waiting for it.  The only program of the system at hand is the shell; a file
of the workspace is a program if it is a script for the shell.  A program that cannot be started, or
that does not end with success, is a failure that carries what is known of its end.
-/

namespace Dataflow

structure Finished where
  stdout : Text := ""
  stderr : Text := ""
  /-- The exit status; none where the program did not end by itself. -/
  status : Option Nat := none

namespace Finished

/-- The exit status as a number, `-1` for none. -/
def code (f : Finished) : Int := (f.status.map Int.ofNat).getD (-1)

/-- The first line that is not blank, of the output or else of the error output. -/
def firstLine (f : Finished) : Text :=
  (([f.stdout, f.stderr].flatMap fun t => (t.split "\n").map Text.trim).find? (!·.isEmpty)).getD ""

end Finished

namespace External

def signalText (n : Nat) : Text :=
  let names : List Text := ("hangup,interrupt,quit,illegal instruction,trace/breakpoint trap,aborted,"
    ++ "bus error,floating point exception,killed,user defined signal 1,segmentation fault,"
    ++ "user defined signal 2,broken pipe,alarm clock,terminated,stack fault,child exited,continued,"
    ++ "stopped (signal),stopped,stopped (tty input),stopped (tty output),urgent I/O condition,"
    ++ "CPU time limit exceeded,file size limit exceeded,virtual timer expired,"
    ++ "profiling timer expired,window changed,I/O possible,power failure,bad system call" :
      Text).split ","
  if n = 0 then "signal 0" else names.getD (n - 1) ("signal " ++ Text.ofNat n)

def conclude (r : Shell.Result) : Finished × Option Failure :=
  let f : Finished := { stdout := r.stdout, stderr := r.stderr }
  match r.ending with
  | .exited 0 => ({ f with status := some 0 }, none)
  | .exited n => ({ f with status := some n }, some (.plain ("exit status " ++ Text.ofNat n)))
  | .killed n => (f, some (.plain ("signal: " ++ signalText n)))

def unstarted (reason : Failure) : Finished × Option Failure := ({}, some reason)

def variablesFor (w : Workspace) (environment : List Text) : List (Text × Text) :=
  ("HOME", "/nonexistent") :: ("PATH", w.tools.getD "/nonexistent")
    :: environment.filterMap fun e => e.cut? "="

def textFiles (w : Workspace) : List (Text × Text) :=
  w.files.entries.filterMap fun (parts, s) => match s with
    | .text t => some (Text.join "/" parts, t)
    | .table _ => none

def shell (w : Workspace) (args environment : List Text) : Finished × Option Failure :=
  conclude (Shell.start "/bin/sh" args (variablesFor w environment) (textFiles w))

def script (w : Workspace) (path : Text) (args environment : List Text) (s : Stored) :
    Finished × Option Failure :=
  let refused (reason : Text) : Finished × Option Failure :=
    unstarted (.plain ("fork/exec " ++ path ++ ": " ++ reason))
  match s with
  | .table _ => refused "exec format error"
  | .text t =>
    match Shell.interpreter? t with
    | none => refused "exec format error"
    | some (program, first) =>
      if program = "/bin/sh" then shell w (first ++ path :: args) environment
      else if program.isEmpty then refused "exec format error"
      else refused "no such file or directory"

def tool? (w : Workspace) (name : Text) : Option Text := do
  let path := (← w.tools) ++ "/" ++ name
  match w.files.lookup path with
  | .ok (.file _) => some path
  | _ => none

/-- Starts the program at a path and waits for it.  No text that goes to it may hold a zero byte. -/
def startAt (w : Workspace) (path : Text) (args environment : List Text) :
    Finished × Option Failure :=
  let hasZero (t : Text) : Bool := t.any (· = 0)
  if environment.any hasZero then unstarted (.plain "exec: environment variable contains NUL")
  else if (path :: args).any hasZero then
    unstarted (.plain ("fork/exec " ++ path ++ ": invalid argument"))
  else if path = "/bin/sh" then shell w args environment
  else match w.files.lookup path with
    | .ok (.file s) => script w path args environment s
    | .ok .directory => unstarted (.plain ("fork/exec " ++ path ++ ": permission denied"))
    | .error fault => unstarted (.file "fork/exec" path fault)

def start (w : Workspace) (binary : Text) (args environment : List Text) :
    Finished × Option Failure :=
  if binary.contains "/" then startAt w binary args environment
  else match tool? w binary with
    | some path => startAt w path args environment
    | none => unstarted (.plain
        ("exec: " ++ binary.quoted ++ ": executable file not found in $PATH"))

/-- Runs a program.  The failure of a program that has no success tells how it ended. -/
def run (w : Workspace) (binary : Text) (args environment : List Text) :
    Except Failure (Finished × Option Failure) :=
  if binary.isEmpty then .error (Failure.invalidInput "binary" "is required")
  else
    let (f, reason) := start w binary args environment
    .ok (f, reason.map fun reason =>
      ((Failure.backendExecution binary (some reason)).withDetail "exit_code"
        (.int (Int64.ofInt f.code))).withDetail "stderr" (.text f.stderr.trim))

end External

end Dataflow
