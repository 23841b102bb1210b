import Dataflow.Shell.Builtin

/-!
# Running scripts

`Run.script` runs a script line by line, and `start` is the shell as a program: with a script, or
with a text of commands, and with options before them.  Scripts may not end, so everything here has
some fuel, which bounds how deep commands run one another and how often a loop goes round.
-/

namespace Dataflow.Shell

open Session

namespace Run

def caught (act : Run Unit) : Run (Option Stop) :=
  tryCatch (do act; return none) fun stop => return some stop

/-- Goes on as a step went that was caught. -/
def resume : Option Stop → Run Unit
  | some stop => throw stop
  | none => return ()

/-- A round of a loop, and whether another one may follow. -/
def round (act : Run Unit) : Run Bool := do
  modify fun s => { s with loops := s.loops + 1 }
  let stop ← caught act
  modify fun s => { s with loops := s.loops - 1 }
  match stop with
  | none => return true
  | some (.leave n) => if n ≤ 1 then return false else throw (.leave (n - 1))
  | some (.again n) => if n ≤ 1 then return true else throw (.again (n - 1))
  | some stop => throw stop

/-- A step on a copy of what the script knows.  What is written stays written. -/
def isolated (act : Run Unit) : Run Unit := do
  let before ← get
  let stop ← caught act
  let after ← get
  set { before with
    status := after.status, sinks := after.sinks, sources := after.sources, files := after.files }
  match stop with
  | some (.killed n) => throw (.killed n)
  | _ => return ()

/-- What a step on a copy writes, without the line breaks at its end. -/
def captured (act : Run Unit) : Run Text := do
  let n := (← get).sinks.length
  modify fun s => { s with sinks := s.sinks ++ [Text.empty] }
  isolated do
    modify (·.connect 1 (.sink n))
    act
  let t := (← get).sinks.getD n ""
  return ⟨t.bytes.filter (· ≠ 0)⟩

/-- Ends the script after a failure that nothing depends on, if it is to end then. -/
def settle (tested : Bool) : Run Unit := do
  let s ← get
  if s.status ≠ 0 && !tested && s.has 'e' then throw .exit

def openFile (stream : Nat) (access : Access) (path : Text) : Run (Option Text) := do
  let s ← get
  let share (other : Nat) : Run (Option Text) := do
    match get? other s.streams with
    | some target => set (s.connect stream target)
    | none => pure ()
    return none
  if path = "/dev/null" then
    set (s.connect stream .nowhere)
    return none
  else if path = "/dev/stdout" then share 1
  else if path = "/dev/stderr" then share 2
  else if path = "/dev/stdin" then share 0
  else if access = .read then
    match s.file? path with
    | some t =>
      set (s.connectText stream t)
      return none
    | none => return some ("cannot open " ++ path ++ ": No such file")
  else if s.isDirectory path then
    return some ("cannot create " ++ path ++ ": Is a directory")
  else
    let path := normal path
    let inside : Text := match path.cutLast? (byte '/') with
      | some (dir, _) => dir.orElse "/"
      | none => "."
    if s.isDirectory inside then
      let t : Text := if access = .write then "" else (s.file? path).getD ""
      set { s.connect stream (.file path) with files := put path t s.files }
      return none
    else return some ("cannot create " ++ path ++ ": Directory nonexistent")

def copyStream (stream : Nat) (source : Text) : Run (Option Text) := do
  if source = "-" then
    modify fun s => { s with streams := s.streams.filter (·.1 ≠ stream) }
    return none
  else if source.length = 1 && source.all Byte.isDigit then
    let s ← get
    match get? (source.toNat?.getD 0) s.streams with
    | some target =>
      set (s.connect stream target)
      return none
    | none => return some (source ++ ": Bad file descriptor")
  else fatal ("Syntax error: " ++ Fault.streamNumber.message)

end Run

/-- How the shell is started: its options, and the words after them; with `asked`, the first of
them is a text of commands. -/
structure Invocation where
  options : Options := []
  asked : Bool := false
  words : List Text := []

def Invocation.letters (on : Bool) : List UInt8 → Invocation → Except Text Invocation
  | [], i => .ok i
  | b :: bs, i =>
    if b = byte 'c' then letters on bs { i with asked := true }
    else if b = byte 'l' then letters on bs i
    else if Builtin.optionNames.any fun (_, c) => byte c = b then
      let rest := i.options.filter (· ≠ b)
      letters on bs { i with options := if on then rest ++ [b] else rest }
    else .error ("Illegal option " ++ (if on then ("-" : Text) else "+") ++ ⟨[b]⟩)

/-- Reads the words after the name of the shell.  The letter `o` stands for the option that the next
word names. -/
def Invocation.read : List Text → Invocation → Except Text Invocation
  | [], i => .ok i
  | t :: rest, i =>
    match t.bytes with
    | [] => .ok { i with words := t :: rest }
    | sign :: letters =>
      let on := sign = byte '-'
      if t = "-" || t = "--" then .ok { i with words := rest }
      else if !on && sign ≠ byte '+' then .ok { i with words := t :: rest }
      else if letters.getLast? ≠ some (byte 'o') then do
        read rest (← Invocation.letters on letters i)
      else match rest with
        | [] => .ok i
        | name :: rest =>
          match Builtin.optionNames.find? (·.1 = name) with
          | some (_, c) => do
            read rest (← Invocation.letters on (letters.dropLast ++ [byte c]) i)
          | none => .error ("Illegal option " ++ ⟨[sign]⟩ ++ "o " ++ name)

namespace Run

def homed (w : Word) : Run Word := do
  match w with
  | .text false t :: rest =>
    match t.after? "~" with
    | some more =>
      if (more.isEmpty && rest.isEmpty) || more.startsWith "/" then
        return .text true ((← get).value "HOME") :: .text false more :: rest
      else return w
    | none => return w
  | _ => return w

def trace (words : List Text) : Run Unit := do
  if (← get).has 'x' && !words.isEmpty then
    modify fun s => s.write 2 ("+ " ++ Text.join " " words ++ "\n")

/-- The steps that are taken again by the steps that they take.  With `tested`, something depends on
their success. -/
class Steps where
  expand (nested : Bool) (w : Word) : Run (List Segment) := throw .exit
  command (tested : Bool) (c : Command) : Run Unit := throw .exit
  script (tested : Bool) (source : Source) : Run Unit := throw .exit

section

variable [Steps]

open Steps (expand)

def plainScript (t : Text) : Run Unit := Steps.script false { bytes := t.bytes }

def runAll (tested : Bool) (cs : List Command) : Run Unit := cs.forM (Steps.command tested)

def atExit : Run Unit := do
  let s ← get
  match get? 0 s.traps with
  | some action =>
    set { s with traps := s.traps.filter (·.1 ≠ 0) }
    match ← caught (plainScript action) with
    | some .exit => return ()
    | _ => setStatus s.status
  | none => return ()

def subshell (cs : List Command) : Run Unit := do
  modify fun s => { s with traps := s.traps.filter (·.2.isEmpty) }
  let stop ← caught (runAll false cs)
  atExit
  resume stop

def expandText (w : Word) : Run Text :=
  return Text.concat ((← expand false (← homed w)).map Segment.text)

def expandMarks (w : Word) : Run (List Glob.Mark) :=
  return (← expand false w).flatMap Segment.marks

/-- The pieces that a part of a word becomes.  Text inside the braces of a parameter is `nested`: it
is parted like a value. -/
def expandPart (nested : Bool) (p : Part) : Run (List Segment) := do
  let piece (quoted : Bool) (t : Text) : List Segment := [if quoted then .fixed t else .loose t]
  match p with
  | .text true t => return [.fixed t]
  | .text false t => return [if nested then .loose t else .plain t]
  | .output quoted cs =>
    let t ← captured (subshell cs)
    modify fun s => { s with used := s.status }
    return piece quoted (t.dropEndWhile (· = 10))
  | .number quoted w =>
    let t ← expandText w
    let s ← get
    match (Sum.read? t).mapError Sum.Fault.form >>= fun e => (e.evaluate s.value).run [] with
    | .ok (n, changes) =>
      for (name, v) in changes.reverse do assign name v
      return piece quoted (Text.ofInt n.toInt)
    | .error (.form reason) =>
      fatal ("arithmetic expression: " ++ reason ++ ": \"" ++ t ++ "\"")
    | .error (.number t) => fatal ("Illegal number: " ++ t)
  | .parameter quoted name use =>
    let s ← get
    let current := s.value? name
    let isAll := name = "@" || name = "*"
    let nothing : List Segment := if quoted then [.fixed ""] else []
    let whole : List Segment :=
      if name = "*" && quoted then [.fixed (Text.join (s.separators.take 1) s.args)]
      else if isAll then (s.args.flatMap fun a => .border :: piece quoted a).drop 1
      else piece quoted (s.value name)
    let isPresent (orEmpty : Bool) : Bool := current.any fun v => !(orEmpty && v.isEmpty)
    let known : Run Unit :=
      if current.isNone && s.has 'u' && !isAll then fatal (name ++ ": parameter not set")
      else return ()
    match use with
    | .value =>
      known
      return whole
    | .length =>
      known
      return piece quoted (Text.ofNat (s.value name).length)
    | .absent orEmpty remedy w =>
      if isPresent orEmpty then return whole
      else match remedy with
        | .replace => if w.isEmpty then return nothing else expand true w
        | .assign =>
          let t ← expandText w
          if !isName name then fatal (name ++ ": bad variable name")
          assign name t
          return piece quoted t
        | .complain =>
          let t ← expandText w
          fatal (name ++ ": " ++
            if !w.isEmpty then t
            else if orEmpty then "parameter not set or null"
            else "parameter not set")
    | .present orEmpty w => if isPresent orEmpty then expand true w else return nothing
    | .trimmed atEnd longest pattern =>
      known
      return piece quoted (trimPattern atEnd longest (← expandMarks pattern) (s.value name))
    | .unknown => fatal "Bad substitution"

def expandAll (ws : List Word) : Run (List Text) :=
  ws.flatMapM fun w => do
    let gs ← expand false (← homed w)
    let s ← get
    return (fieldsOf s.separators gs).flatMap s.glob

def redirectAll : List Redirect → Run (Option Text)
  | [] => return none
  | r :: rs => do
    let fault ← match r with
      | .file stream access w => do openFile stream access (← expandText w)
      | .copy stream w => do copyStream stream (← expandText w)
      | .here stream w => do
        let t ← expandText w
        modify (·.connectText stream t)
        pure none
    if fault.isSome then return fault else redirectAll rs

def within (rs : List Redirect) (act : Run Unit) : Run Unit := do
  if rs.isEmpty then act
  else
    let streams := (← get).streams
    match ← redirectAll rs with
    | some t =>
      complain t
      modify fun s => { s with streams, status := 2 }
    | none =>
      let stop ← caught act
      modify fun s => { s with streams }
      resume stop

def loop (tested success : Bool) (test body : List Command) : Nat → Nat → Run Unit
  | 0, _ => throw .exit
  | rounds + 1, last => do
    let more ← round (runAll true test)
    if more && ((← get).status = 0) = success then
      setStatus 0
      if ← round (runAll tested body) then
        loop tested success test body rounds (← get).status
    else if more then setStatus last

def each (tested : Bool) (name : Text) (body : List Command) : List Text → Run Unit
  | [] => return ()
  | t :: ts => do
    assign name t
    if ← round (runAll tested body) then each tested name body ts

def select (tested : Bool) (t : Text) : List (List Word × List Command) → Run Unit
  | [] => return ()
  | (patterns, cs) :: arms => do
    if ← patterns.anyM fun w => do return matchesPattern (← expandMarks (← homed w)) t then
      runAll tested cs
    else select tested t arms

def pipe (input : Option Text) : List Command → Run Unit
  | [] => return ()
  | c :: cs => do
    let act : Run Unit := do
      if let some t := input then modify (·.connectText 0 t)
      subshell [c]
    if cs.isEmpty then isolated act else pipe (some (← captured act)) cs

def call (tested : Bool) (start : Nat) (body : Command) (args : List Text) : Run Unit := do
  let s ← get
  set { s with args, base := start - 1, loops := 0, saved := [], inFunction := true }
  let stop ← caught (Steps.command tested body)
  modify fun t =>
    let t := t.saved.foldl (fun (t : Session) (name, v) => t.restore name v) t
    { t with
      args := s.args, base := s.base, loops := s.loops, saved := s.saved,
      inFunction := s.inFunction }
  match stop with
  | some .back => return ()
  | _ => resume stop

def shell (args : List Text) : Run Unit := do
  let refuse (t : Text) : Run Unit := do
    modify fun s => { s with line := 0 }
    fatal t
  let stop ← caught do
    match Invocation.read args {} with
    | .error t => refuse t
    | .ok i =>
      modify fun s => { s with options := i.options }
      match i.asked, if i.asked || !i.options.contains (byte 's') then i.words else [] with
      | true, [] => refuse "-c requires an argument"
      | true, t :: words =>
        modify fun s => { s with name := words.headD s.name, args := words.drop 1 }
        plainScript t
      | false, [] =>
        modify fun s => { s with args := i.words }
        let s ← get
        plainScript (match get? 0 s.streams with
          | some (.source n) => s.sources.getD n ""
          | _ => "")
      | false, path :: words =>
        match (← get).file? path with
        | none => refuse ("cannot open " ++ path ++ ": No such file")
        | some t =>
          modify fun s => { s with name := path, args := words }
          plainScript t
  atExit
  match stop with
  | some (.killed n) => throw (.killed n)
  | _ => return ()

/-- A program that is not part of the shell.  A script that asks for no program is one for the
shell. -/
def external (complainer : Text) (settings : List Text) (name : Text) (args : List Text) :
    Run Unit := do
  let s ← get
  let nested (args : List Text) : Run Unit := isolated do
    modify fun s =>
      let names := s.exported ++ settings
      { name := "/bin/sh", values := s.values.filter fun p => names.contains p.1
        exported := names, sinks := s.sinks, sources := s.sources, streams := s.streams
        files := s.files, programs := s.programs }
    shell args
  let refuse (reason : Text) (status : Nat) : Run Unit := do
    complain (complainer ++ name ++ ": " ++ reason)
    setStatus status
  if name = "/bin/sh" then nested args
  else match (s.places name).findSome? fun path => (s.file? path).map (normal path, path, ·) with
    | some (key, path, t) =>
      if !s.programs.contains key then refuse "Permission denied" 126
      else match interpreter? t with
        | some (program, first) =>
          if program = "/bin/sh" then nested (first ++ path :: args) else refuse "not found" 127
        | none => nested (path :: args)
    | none =>
      if name.contains "/" && s.isDirectory name then refuse "Permission denied" 126
      else refuse "not found" 127

/-- Sends a signal to a process, of which only that of the script is known. -/
def kill (n : Nat) (process : Text) : Attempt Unit := do
  let _ ← Builtin.natural ((process.after? "-").getD process)
  if process = processId then
    match get? n (← get).traps with
    | some action =>
      if n = 9 then (throw (.killed n) : Run Unit)
      else if !action.isEmpty then (plainScript action : Run Unit)
    | none => if !Builtin.isHarmless n then (throw (.killed n) : Run Unit)
  else
    (complain "kill: No such process\n" : Run Unit)
    Builtin.setStatus 1

def builtin (tested : Bool) (name : Text) (args : List Text) : Attempt Unit := do
  let plain : List (Text × Attempt Unit) := [("false", Builtin.setStatus 1), ("echo", Builtin.echo args),
    ("printf", Builtin.printf args), ("test", Builtin.test name args), ("[", Builtin.test name args),
    ("break", Builtin.loop false args), ("continue", Builtin.loop true args),
    ("exit", Builtin.leave .exit args), ("return", Builtin.leave .back args),
    ("shift", Builtin.shift args), ("set", Builtin.setArgs args), ("unset", Builtin.unset args),
    ("export", Builtin.exportNames args), ("readonly", Builtin.readonlyNames args),
    ("local", Builtin.localNames args), ("read", Builtin.read args), ("cd", Builtin.cd args),
    ("trap", Builtin.trap args), ("type", Builtin.describeNames args), ("umask", Builtin.echo ["0022"])]
  if let some act := get? name plain then act
  else if name = ":" || name = "true" || name = "wait" || name = "hash" || name = "jobs" then
    Builtin.setStatus 0
  else if name = "pwd" then
    Builtin.write ((← get).value "PWD" ++ "\n")
    Builtin.setStatus 0
  else if name = "kill" then
    let (n, processes) ← Builtin.signals args
    Builtin.setStatus 0
    processes.forM (kill n)
  else if name = "eval" then
    Builtin.setStatus 0
    let line := (← get).line
    (Steps.script tested { bytes := (Text.join " " args).bytes, line } : Run Unit)
  else match args with
    | [] => Builtin.setStatus 0
    | first :: rest =>
      if name = "." then
        let s ← get
        match (s.places first).findSome? s.file? with
        | none =>
          Builtin.fail (if first.contains "/" then "cannot open " ++ first ++ ": No such file"
            else first ++ ": not found")
        | some t =>
          match ← (caught (plainScript t) : Run (Option Stop)) with
          | some .back => return ()
          | stop => (resume stop : Run Unit)
      else if name = "exec" then
        (external "exec: " [] first rest : Run Unit)
        (throw .exit : Run Unit)
      else if first = "-v" || first = "-V" then
        Builtin.setStatus 0
        for name in rest do
          match Builtin.describe (← get) Builtin.names name with
          | some t => Builtin.write ((if first = "-v" then name else t) ++ "\n")
          | none => Builtin.setStatus 127
      else if Builtin.names.contains first then builtin tested first rest
      else (external "" [] first rest : Run Unit)

/-- Performs a command by its name; `settings` are the variables that are set for it alone. -/
def perform (tested : Bool) (settings : List Text) (name : Text) (args : List Text) : Run Unit := do
  let isSpecial := Source.specialCommands.contains name
  let functions := (← get).functions
  match if isSpecial then none else get? name functions with
  | some (start, body) => call tested start body args
  | none =>
    if Builtin.names.contains name then
      match ← (builtin tested name args).run with
      | .ok () => return ()
      | .error t =>
        complain (name ++ ": " ++ t)
        setStatus 2
        if isSpecial then throw .exit
    else external "" settings name args

def simple (tested : Bool) (line : Nat) (settings : List (Text × Word)) (words : List Word)
    (rs : List Redirect) : Run Unit := do
  modify fun s => { s with line := line - s.base, used := 0 }
  let fields ← expandAll words
  let isSpecial := Source.specialCommands.contains (fields.headD "")
  let streams := (← get).streams
  match ← redirectAll rs with
  | some t =>
    complain t
    modify fun s => { s with streams, status := 2 }
    if isSpecial then throw .exit
  | none =>
    let before := (← get).values
    let values ← settings.mapM fun (name, w) => do
      let t ← expandText w
      assign name t
      return (name, t)
    trace (values.map (fun (name, v) => name ++ "=" ++ v) ++ fields)
    match fields with
    | [] => modify fun s => { s with streams, status := s.used }
    | name :: args =>
      let stop ← caught (perform tested (values.map Prod.fst) name args)
      if !(name = "exec" && args.isEmpty) then modify fun s => { s with streams }
      if !isSpecial then
        for (name, _) in values do modify (·.restore name (get? name before))
      resume stop

def command (tested : Bool) : Command → Run Unit
  | .simple line settings words rs => do
    simple tested line settings words rs
    settle tested
  | .pipe cs => do
    pipe none cs
    settle tested
  | .negate c => do
    Steps.command true c
    modify fun s => { s with status := if s.status = 0 then 1 else 0 }
  | .both a b => do
    Steps.command true a
    if (← get).status = 0 then Steps.command tested b
  | .either a b => do
    Steps.command true a
    if (← get).status ≠ 0 then Steps.command tested b
  | .background c => do
    isolated (Steps.command true c)
    setStatus 0
  | .group cs rs => within rs (runAll tested cs)
  | .subshell cs rs => do
    within rs (isolated (subshell cs))
    settle tested
  | .choice test yes no rs => within rs do
      runAll true test
      if (← get).status = 0 then runAll tested yes
      else
        setStatus 0
        runAll tested no
  | .loop success test body rs => within rs (loop tested success test body 100000 0)
  | .each line name words body rs => within rs do
      modify fun s => { s with line := line - s.base }
      let items ← match words with
        | some ws => expandAll ws
        | none => pure (← get).args
      setStatus 0
      each tested name body items
  | .select line w arms rs => within rs do
      modify fun s => { s with line := line - s.base }
      let t ← expandText w
      setStatus 0
      select tested t arms
  | .define line name body =>
    modify fun s => { s with functions := put name (line, body) s.functions, status := 0 }

/-- Runs a script line by line. -/
def script (tested : Bool) (source : Source) : Run Unit := do
  match source.line? with
  | .error (line, f) =>
    modify fun s => { s with line }
    fatal ("Syntax error: " ++ f.message)
  | .ok none => return ()
  | .ok (some (cs, source)) =>
    runAll tested cs
    Steps.script tested source

end

@[reducible]
def steps : Nat → Steps
  | 0 => {}
  | fuel + 1 =>
    { expand := fun nested w => w.flatMapM (@expandPart (steps fuel) nested)
      command := fun tested c => @command (steps fuel) tested c
      script := fun tested source => @script (steps fuel) tested source }

end Run

def start (name : Text) (args : List Text) (environment files : List (Text × Text)) : Result :=
  let values := environment.foldl (fun vs (k, v) => put k v vs) []
  let session : Session :=
    { name, values, exported := environment.map Prod.fst, files, programs := files.map Prod.fst }
  let (stop, s) := ((@Run.shell (Run.steps 100000) args).run).run session
  { stdout := s.sinks.getD 0 "", stderr := s.sinks.getD 1 ""
    ending := match stop with
      | .error (.killed n) => .killed n
      | _ => .exited s.status }

end Dataflow.Shell
