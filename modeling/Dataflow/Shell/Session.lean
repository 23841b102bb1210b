import Dataflow.Shell.Pattern
import Dataflow.Shell.Source

/-!
# A running script

`Session` is what a script knows: its arguments, its variables and functions, and where its streams
lead.  `Run` is a step of it, which may also end a loop, a function or the whole script.  A word
becomes a list of pieces, and the pieces make fields.
-/

namespace Dataflow.Shell

inductive Ending where
  | exited (status : Nat)
  | killed (signal : Nat)
deriving DecidableEq

structure Result where
  stdout : Text := ""
  stderr : Text := ""
  ending : Ending := .exited 0

def processId : Text := "4242"

inductive Stream where
  /-- To a text that grows. -/
  | sink (n : Nat)
  /-- From a text that is used up. -/
  | source (n : Nat)
  | file (path : Text)
  | nowhere
deriving DecidableEq

abbrev Options := List UInt8

structure Session where
  name : Text
  args : List Text := []
  values : List (Text × Text) := []
  exported : List Text := []
  constant : List Text := []
  functions : List (Text × Nat × Command) := []
  /-- What is done on a signal; nothing is done where the text is empty. -/
  traps : List (Nat × Text) := []
  options : Options := []
  status : Nat := 0
  used : Nat := 0
  line : Nat := 1
  base : Nat := 0
  loops : Nat := 0
  saved : List (Text × Option Text) := []
  inFunction : Bool := false
  sinks : List Text := ["", ""]
  sources : List Text := []
  streams : List (Nat × Stream) := [(0, .nowhere), (1, .sink 0), (2, .sink 1)]
  files : List (Text × Text) := []
  programs : List Text := []

inductive Stop where
  | leave (loops : Nat)
  | again (loops : Nat)
  | back
  | exit
  | killed (signal : Nat)
deriving DecidableEq

abbrev Run := ExceptT Stop (StateM Session)

namespace Session

def put [BEq κ] (k : κ) (v : α) (ps : List (κ × α)) : List (κ × α) :=
  (k, v) :: ps.filter fun p => p.1 != k

def get? [BEq κ] (k : κ) (ps : List (κ × α)) : Option α := (ps.find? fun p => p.1 == k).map Prod.snd

def has (s : Session) (option : Char) : Bool := s.options.contains (byte option)

def value? (s : Session) (name : Text) : Option Text :=
  if name = "$" then some processId
  else if name = "0" then some s.name
  else if name = "#" then some (Text.ofNat s.args.length)
  else if name = "?" then some (Text.ofNat s.status)
  else if name = "-" then some ⟨s.options⟩
  else if name = "@" || name = "*" then
    if s.args.isEmpty then none else some (Text.join " " s.args)
  else match name.toNat? with
    | some n => s.args[n - 1]?
    | none => get? name s.values

def value (s : Session) (name : Text) : Text := (s.value? name).getD ""

def separators (s : Session) : Text := (get? ("IFS" : Text) s.values).getD " \t\n"

def set (s : Session) (name v : Text) : Session :=
  { s with
    values := put name v s.values
    exported := if s.has 'a' then name :: s.exported else s.exported }

def unset (s : Session) (name : Text) : Session :=
  { s with values := s.values.filter (·.1 ≠ name), exported := s.exported.filter (· ≠ name) }

def restore (s : Session) (name : Text) : Option Text → Session
  | some v => s.set name v
  | none => s.unset name

def normal (path : Text) : Text :=
  let isStep (part : Text) : Bool := part.isEmpty || part = "."
  (if path.startsWith "/" then ("/" : Text) else "")
    ++ Text.join "/" ((path.split "/").filter (!isStep ·))

def file? (s : Session) (path : Text) : Option Text := get? (normal path) s.files

/-- The places where a program may be: at a path, or in the directories for programs. -/
def places (s : Session) (name : Text) : List Text :=
  if name.contains "/" then [name]
  else ((s.value "PATH").split ":").map fun dir => dir ++ "/" ++ name

/-- The directories below the working directory, and some that are always there. -/
def isDirectory (s : Session) (path : Text) : Bool :=
  let known : List Text := ["/", "/tmp", "/dev", "/bin", "/usr", "/etc"]
  let path := normal path
  path.isEmpty || path = ".." || known.contains path || s.files.any (·.1.startsWith (path ++ "/"))

def write (s : Session) (stream : Nat) (t : Text) : Session :=
  match get? stream s.streams with
  | some (.sink n) => { s with sinks := s.sinks.modify n (· ++ t) }
  | some (.file path) => { s with files := put path ((get? path s.files).getD "" ++ t) s.files }
  | _ => s

def connect (s : Session) (stream : Nat) (target : Stream) : Session :=
  { s with streams := put stream target s.streams }

def connectText (s : Session) (stream : Nat) (t : Text) : Session :=
  { (s.connect stream (.source s.sources.length)) with sources := s.sources ++ [t] }

def readLine (s : Session) (stream : Nat) : Text × Bool × Session :=
  match get? stream s.streams with
  | some (.source n) =>
    let t := s.sources.getD n ""
    match t.cut? "\n" with
    | some (line, rest) => (line, true, { s with sources := s.sources.set n rest })
    | none => (t, false, { s with sources := s.sources.set n "" })
  | _ => ("", false, s)

end Session

namespace Run

def complain (t : Text) : Run Unit :=
  modify fun s => s.write 2 (s.name ++ ": " ++ Text.ofNat s.line ++ ": " ++ t ++ "\n")

def setStatus (n : Nat) : Run Unit := modify fun s => { s with status := n }

def fatal (t : Text) : Run α := do
  complain t
  setStatus 2
  throw .exit

def assign (name v : Text) : Run Unit := do
  if (← get).constant.contains name then fatal (name ++ ": is read only")
  modify (·.set name v)

end Run

/-! ### Words -/

inductive Segment where
  /-- As it is written, without quotes. -/
  | plain (t : Text)
  /-- In quotes. -/
  | fixed (t : Text)
  /-- A value, which separators part. -/
  | loose (t : Text)
  /-- Between two fields. -/
  | border

namespace Segment

def text : Segment → Text
  | plain t | fixed t | loose t => t
  | border => " "

def marks (g : Segment) : List Glob.Mark :=
  let quoted : Bool := match g with
    | fixed _ => true
    | _ => false
  g.text.bytes.map (·, quoted)

end Segment

/-- Fields that are being collected: those that are finished, last first, and the one at hand. -/
structure Fielding where
  finished : List (List Glob.Mark) := []
  current : Option (List Glob.Mark) := none
  afterBlank : Bool := false

namespace Fielding

def close (f : Fielding) : Fielding :=
  match f.current with
  | some ms => { finished := ms :: f.finished }
  | none => f

def add (f : Fielding) (ms : List Glob.Mark) : Fielding :=
  { f with current := some (f.current.getD [] ++ ms), afterBlank := false }

def step (separators : Text) (f : Fielding) (m : Glob.Mark) : Fielding :=
  if !separators.bytes.contains m.1 then f.add [m]
  else if m.1 = 32 || m.1 = 9 || m.1 = 10 then
    if f.current.isSome then { f.close with afterBlank := true } else f
  else if f.current.isSome then f.close
  else if f.afterBlank then { f with afterBlank := false }
  else { f with finished := [] :: f.finished }

def segment (separators : Text) (f : Fielding) (g : Segment) : Fielding :=
  match g with
  | .plain _ | .fixed _ => f.add g.marks
  | .loose _ => g.marks.foldl (step separators) f
  | .border => f.close

end Fielding

def fieldsOf (separators : Text) (gs : List Segment) : List (List Glob.Mark) :=
  (gs.foldl (Fielding.segment separators) {}).close.finished.reverse

def patternParts (ms : List Glob.Mark) : List (List Glob.Mark) :=
  ms.foldr (fun m parts => match parts with
    | part :: rest => if m.1 = byte '/' then [] :: part :: rest else (m :: part) :: rest
    | [] => [[m]]) [[]]

/-- Whether a pattern matches a path part by part; a dot in front has to be written. -/
def matchesPath (pattern path : List (List Glob.Mark)) : Bool :=
  pattern.length = path.length && (pattern.zip path).all fun (p, t) =>
    matchesPattern p ⟨t.map Prod.fst⟩ && p.isEmpty = t.isEmpty
      && ((t.head?.map Prod.fst) ≠ some (byte '.') || (p.head?.map Prod.fst) = some (byte '.'))

/-- The paths below the working directory, those of directories also with a slash at the end. -/
def Session.paths (s : Session) : List Text :=
  "." :: ".." :: (s.files.flatMap fun (path, _) =>
    let parts := path.split "/"
    let starts := (List.range parts.length).map fun n => Text.join "/" (parts.take (n + 1))
    starts ++ starts.dropLast.map fun t => t ++ ("/" : Text)).eraseDups

def Session.glob (s : Session) (ms : List Glob.Mark) : List Text :=
  let itself : Text := ⟨ms.map Prod.fst⟩
  let isPattern := ms.any fun m => Glob.isMark 42 m || Glob.isMark 63 m || Glob.isMark 91 m
  if !isPattern || s.has 'f' then [itself]
  else
    let found := s.paths.filter fun path =>
      matchesPath (patternParts ms) (patternParts (path.bytes.map (·, true)))
    if found.isEmpty then [itself] else Text.sort found

/-- The program that the first line of a script asks for, with its argument. -/
def interpreter? (t : Text) : Option (Text × List Text) := do
  let line ← ((t.cut? "\n").elim t Prod.fst).after? "#!"
  let isBlank (b : UInt8) : Bool := b = 32 || b = 9
  let words := (line.dropWhile isBlank).dropEndWhile isBlank
  let program := words.takeWhile (!isBlank ·)
  let arg := (words.drop program.length).dropWhile isBlank
  return (program, if arg.isEmpty then [] else [arg])

end Dataflow.Shell
