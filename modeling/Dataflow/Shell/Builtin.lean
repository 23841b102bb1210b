import Dataflow.Shell.Condition
import Dataflow.Shell.Session
import Dataflow.Shell.Written

/-!
# Commands of the shell

The commands that are part of the shell and run no other commands.  A command that fails with a
complaint is a failed step of the script; it ends the script only if the command is a special one.
-/

namespace Dataflow.Shell

/-- A step that may fail with a complaint. -/
abbrev Attempt := ExceptT Text Run

namespace Builtin

def fail (t : Text) : Attempt α := throw t

def natural (t : Text) : Attempt Nat :=
  match t.toNat? with
  | some n => return n
  | none => fail ("Illegal number: " ++ t)

def signalNames : List Text :=
  ("EXIT HUP INT QUIT ILL TRAP ABRT BUS FPE KILL USR1 SEGV USR2 PIPE ALRM TERM STKFLT CHLD CONT " ++
    "STOP TSTP TTIN TTOU URG XCPU XFSZ VTALRM PROF WINCH IO PWR SYS" : Text).split " "

def signal? (t : Text) : Option Nat :=
  match t.toNat? with
  | some n => if n < 65 then some n else none
  | none => signalNames.findIdx? fun name => name = t.toUpper || "SIG" ++ name = t.toUpper

def isHarmless (n : Nat) : Bool := n = 0 || n = 17 || n = 18 || n = 23 || n = 28

def write (t : Text) : Attempt Unit := modify fun s => s.write 1 t

def setStatus (n : Nat) : Attempt Unit := modify fun s => { s with status := n }

def echo (args : List Text) : Attempt Unit := do
  write (echoed args)
  setStatus 0

def printf (args : List Text) : Attempt Unit := do
  match if args.head? = some "--" then args.drop 1 else args with
  | [] => fail "usage: printf format [arg ...]"
  | format :: words =>
    let w := fill format words
    write w.text
    for c in w.complaints do
      (Run.complain ("printf: " ++ c) : Run Unit)
    match w.fault with
    | some t => fail t
    | none => setStatus (if w.complaints.isEmpty then 0 else 1)

def inspectFile (s : Session) (op path : Text) : Bool :=
  let among (ops : List Text) : Bool := ops.contains op
  if path.isEmpty then false
  else if s.isDirectory path then among ["-e", "-d", "-r", "-x", "-w", "-s"]
  else if path = "/bin/sh" then among ["-e", "-f", "-r", "-x", "-w", "-s"]
  else if path = "/dev/null" then among ["-e", "-c", "-r", "-w"]
  else match s.file? path with
    | some t =>
      among ["-e", "-f", "-r", "-w"] || (op = "-s" && !t.isEmpty)
        || (op = "-x" && s.programs.contains (Session.normal path))
    | none => false

def test (name : Text) (args : List Text) : Attempt Unit := do
  let args ← if name = "[" then
      if args.getLast? = some "]" then pure args.dropLast else fail "missing ]"
    else pure args
  match Condition.holds (inspectFile (← get)) args with
  | .ok b => setStatus (if b then 0 else 1)
  | .error t => fail t

/-- The number that an argument gives; one without any. -/
def count (args : List Text) : Attempt Nat :=
  match args with
  | [] => return 1
  | t :: _ => natural t

def loop (again : Bool) (args : List Text) : Attempt Unit := do
  let n ← count args
  if n = 0 then fail ("Illegal number: " ++ args.headD "")
  let loops := (← get).loops
  setStatus 0
  if loops ≠ 0 then
    let n := min n loops
    (throw (if again then .again n else .leave n) : Run Unit)

def leave (stop : Stop) (args : List Text) : Attempt Unit := do
  match args with
  | [] => pure ()
  | t :: _ => setStatus ((← natural t) % 256)
  (throw stop : Run Unit)

def shift (args : List Text) : Attempt Unit := do
  let n ← count args
  if (← get).args.length < n then fail "can't shift that many"
  modify fun s => { s with args := s.args.drop n, status := 0 }

def optionNames : List (Text × Char) :=
  [("errexit", 'e'), ("noglob", 'f'), ("ignoreeof", 'I'), ("interactive", 'i'), ("monitor", 'm'),
   ("noexec", 'n'), ("stdin", 's'), ("xtrace", 'x'), ("verbose", 'v'), ("vi", 'V'), ("emacs", 'E'),
   ("noclobber", 'C'), ("allexport", 'a'), ("notify", 'b'), ("nounset", 'u')]

def switch (on : Bool) (letter : UInt8) : Attempt Unit := do
  if optionNames.any (fun (_, c) => byte c = letter) then
    modify fun s =>
      let rest := s.options.filter (· ≠ letter)
      { s with options := if on then rest ++ [letter] else rest }
  else fail ("Illegal option " ++ (if on then ("-" : Text) else "+") ++ ⟨[letter]⟩)

def options : List Text → Attempt (List Text × Bool)
  | [] => return ([], false)
  | t :: rest => do
    match t.bytes with
    | [] => return (t :: rest, false)
    | sign :: letters =>
      if sign ≠ byte '-' && sign ≠ byte '+' then return (t :: rest, false)
      else if t = "--" then return (rest, true)
      else if t = "-" then return (rest, !rest.isEmpty)
      else
        let on := sign = byte '-'
        if letters = [byte 'o'] then
          match rest with
          | [] => return ([], false)
          | name :: rest =>
            match optionNames.find? (·.1 = name) with
            | some (_, c) =>
              switch on (byte c)
              options rest
            | none => fail ("Illegal option " ++ ⟨[sign]⟩ ++ "o " ++ name)
        else
          for b in letters do switch on b
          options rest

def setArgs (args : List Text) : Attempt Unit := do
  let (rest, marked) ← options args
  if marked || !rest.isEmpty then modify fun s => { s with args := rest }
  setStatus 0

def unset (args : List Text) : Attempt Unit := do
  let (functions, names) := match args with
    | flag :: rest => if flag = "-f" then (true, rest) else if flag = "-v" then (false, rest) else (false, args)
    | [] => (false, [])
  for name in names do
    if functions then modify fun s => { s with functions := s.functions.filter (·.1 ≠ name) }
    else if (← get).constant.contains name then fail (name ++ ": is read only")
    else modify (·.unset name)
  setStatus 0

def inQuotes (t : Text) : Text := "'" ++ t.replaceAll "'" "'\"'\"'" ++ "'"

/-- Marks variables, each with a value or without. -/
def mark (command : Text) (note : Text → Session → Session) (listed : Session → List Text)
    (args : List Text) : Attempt Unit := do
  let names : List Text := args.filter fun a => a ≠ ("-p" : Text)
  if names.isEmpty then
    let s ← get
    for name in Text.sort (listed s).eraseDups do
      write (command ++ " " ++ name
        ++ ((Session.get? name s.values).elim ("" : Text) fun v => "=" ++ inQuotes v) ++ "\n")
  for arg in names do
    match arg.cut? "=" with
    | some (name, v) =>
      if !isName name then fail (name ++ ": bad variable name")
      (Run.assign name v : Run Unit)
      modify (note name)
    | none =>
      if !isName arg then fail (arg ++ ": bad variable name")
      modify (note arg)
  setStatus 0

def exportNames (args : List Text) : Attempt Unit :=
  mark "export" (fun n s => { s with exported := n :: s.exported }) Session.exported args

def readonlyNames (args : List Text) : Attempt Unit :=
  mark "readonly" (fun n s => { s with constant := n :: s.constant }) Session.constant args

def localNames (args : List Text) : Attempt Unit := do
  if !(← get).inFunction then fail "not in a function"
  for arg in args do
    let (name, v) := match arg.cut? "=" with
      | some (name, v) => (name, some v)
      | none => (arg, none)
    modify fun s => { s with saved := (name, Session.get? name s.values) :: s.saved }
    match v with
    | some v => (Run.assign name v : Run Unit)
    | none => pure ()
  setStatus 0

/-- A line without backslashes: each takes the meaning of the byte after it. -/
def unslashed : List UInt8 → List Glob.Mark
  | 92 :: b :: rest => (b, true) :: unslashed rest
  | [92] => []
  | b :: rest => (b, false) :: unslashed rest
  | [] => []

/-- The parts of a line for so many variables; the last gets all that is left. -/
def portions (separators : Text) : Nat → List Glob.Mark → List Text
  | 0, _ => []
  | n + 1, ms =>
    let isSep (m : Glob.Mark) : Bool := !m.2 && separators.bytes.contains m.1
    let isBlank (m : Glob.Mark) : Bool := isSep m && (m.1 = 32 || m.1 = 9 || m.1 = 10)
    let ms := ms.dropWhile isBlank
    let text (ms : List Glob.Mark) : Text := ⟨ms.map Prod.fst⟩
    if n = 0 then [text (ms.reverse.dropWhile isBlank).reverse]
    else
      let rest := (ms.dropWhile (!isSep ·)).dropWhile isBlank
      let rest := match rest with
        | m :: r => if isSep m then r else rest
        | [] => []
      text (ms.takeWhile (!isSep ·)) :: portions separators n rest

def read (args : List Text) : Attempt Unit := do
  let (raw, names) := match args with
    | flag :: rest => if flag = "-r" then (true, rest) else (false, args)
    | [] => (false, [])
  if names.isEmpty then fail "arg count"
  let (line, whole, s) := (← get).readLine 0
  MonadStateOf.set s
  let ms := if raw then line.bytes.map (·, false) else unslashed line.bytes
  let parts := portions s.separators names.length ms
  for (name, v) in names.zip parts do
    if !isName name then fail (name ++ ": bad variable name")
    (Run.assign name v : Run Unit)
  setStatus (if whole then 0 else 1)

def cd (args : List Text) : Attempt Unit := do
  let target := args.headD ((← get).value "HOME")
  if (← get).isDirectory target then
    modify fun s => { s.set "OLDPWD" (s.value "PWD") with status := 0 }
    if target.startsWith "/" then modify (·.set "PWD" target)
  else fail ("can't cd to " ++ target)

def trap (args : List Text) : Attempt Unit := do
  let args := if args.head? = some "--" then args.drop 1 else args
  match args with
  | [] =>
    for (n, action) in (← get).traps.mergeSort (fun a b => a.1 ≤ b.1) do
      write ("trap -- " ++ inQuotes action ++ " " ++ signalNames.getD n (Text.ofNat n) ++ "\n")
    setStatus 0
  | action :: signals =>
    let (action, signals) : Option Text × List Text :=
      if signals.isEmpty then (none, [action])
      else if action = "-" then (none, signals)
      else (some action, signals)
    setStatus 0
    for name in signals do
      match signal? name with
      | none =>
        modify fun s => s.write 2 ("trap: " ++ name ++ ": bad trap\n")
        setStatus 1
      | some n => modify fun s =>
          { s with traps := match action with
              | some a => Session.put n a s.traps
              | none => s.traps.filter (·.1 ≠ n) }

def signals (args : List Text) : Attempt (Nat × List Text) := do
  let usage : Text :=
    "Usage: kill [-s sigspec | -signum | -sigspec] [pid | job]... or\nkill -l [exitstatus]"
  match args with
  | [] => fail usage
  | flag :: rest =>
    match flag.after? "-" with
    | none => return (15, args)
    | some "s" =>
      match rest with
      | [] => fail "No arg for -s option"
      | name :: rest =>
        match signal? name with
        | some n => return (n, rest)
        | none => fail ("invalid signal number or name: " ++ name)
    | some name =>
      match signal? name with
      | some n => return (n, rest)
      | none => fail ("Illegal option -" ++ name.take 1)

def describe (s : Session) (commands : List Text) (name : Text) : Option Text :=
  if keywords.contains name then some (name ++ " is a shell keyword")
  else if (Session.get? name s.functions).isSome then some (name ++ " is a shell function")
  else if Source.specialCommands.contains name then some (name ++ " is a special shell builtin")
  else if commands.contains name then some (name ++ " is a shell builtin")
  else if name.contains "/" && inspectFile s "-x" name && !s.isDirectory name then
    some (name ++ " is " ++ name)
  else none

def names : List Text :=
  (". : [ break cd command continue echo eval exec exit export false hash jobs kill local printf " ++
    "pwd read readonly return set shift test trap true type umask unset wait" : Text).split " "

def describeNames (args : List Text) : Attempt Unit := do
  setStatus 0
  for name in args do
    match describe (← get) names name with
    | some t => write (t ++ "\n")
    | none =>
      write (name ++ ": not found\n")
      setStatus 127

end Builtin

end Dataflow.Shell
