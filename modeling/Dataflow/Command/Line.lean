import Dataflow.Command.Flag

/-!
# Command lines

A command line names a command among flags.  It is read to a request and the options that hold for
all commands; the options are known as far as the line is right.
-/

namespace Dataflow.Command

structure Spec where
  name : Text
  flags : List Flag := []
  /-- How many arguments it takes; any number where this is none. -/
  arity : Option Nat := some 0

def commonFlags : List Flag :=
  [{ name := "config" }, { name := "log-level" }, { name := "json", isSwitch := true }]

def helpFlag : Flag := { name := "help", letter := some 'h', isSwitch := true }

def targetFlag : Flag := { name := "target", letter := some 't' }

def specs : List Spec :=
  [{ name := "compile", flags := [targetFlag], arity := some 1 },
   { name := "run", flags := [targetFlag, { name := "summary", isSwitch := true }], arity := some 1 },
   { name := "backends", flags := [{ name := "health", isSwitch := true }] },
   { name := "inspect", arity := some 1 },
   { name := "version" },
   { name := "help", arity := none },
   { name := "completion", arity := none }]

def program : Text := "flowc"

/-! ### Finding the command -/

/-- Whether a word is a flag whose value is the next word, as far as the flags are known. -/
def takesNext (flags : List Flag) (word : Text) : Bool :=
  let isSwitch (p : Flag → Bool) : Bool := flags.any fun f => p f && f.isSwitch
  word.startsWith "-" && !word.contains "=" &&
    ((word.startsWith "--" && !isSwitch fun f => f.name = word.drop 2)
      || (word.length = 2 && !isSwitch fun f => f.letter.any fun c => Text.ofChar c = word.drop 1))

def bareWords (flags : List Flag) : List Text → List Text
  | [] => []
  | word :: rest =>
    if word = "--" then []
    else if takesNext flags word then
      match rest with
      | _ :: x :: xs => bareWords flags (x :: xs)
      | _ => []
    else if !word.isEmpty && !word.startsWith "-" then word :: bareWords flags rest
    else bareWords flags rest

/-- The words without the first bare one that is `name`. -/
def without (flags : List Flag) (name : Text) : List Text → List Text
  | [] => []
  | word :: rest =>
    if word = "--" then word :: rest
    else if takesNext flags word then
      match rest with
      | value :: rest => word :: value :: without flags name rest
      | [] => [word]
    else if word = name then rest
    else word :: without flags name rest

/-- One row of the table of distances: those of a text that ends in `a` from the beginnings of another,
given the row before and the distance on the left. -/
def distanceRow (a : UInt8) (left : Nat) : List UInt8 → List Nat → List Nat
  | b :: bs, diagonal :: up :: rest =>
    let d := if a = b then diagonal else min diagonal (min left up) + 1
    d :: distanceRow a d bs (up :: rest)
  | _, _ => []

/-- How many bytes have to be changed, put in or left out to make one text the other. -/
def distance (s t : Text) : Nat :=
  let first := List.range (t.length + 1)
  (s.bytes.zipIdx.foldl (fun row (a, i) => (i + 1) :: distanceRow a (i + 1) t.bytes row) first).getLastD 0

def suggestions (word : Text) : List Text :=
  let word := word.lowercase
  (specs.map Spec.name).filter fun name =>
    name ≠ "help" && (distance word name ≤ 2 || name.startsWith word)

def unknownCommand (word : Text) : Failure :=
  let near := suggestions word
  let advice : Text :=
    if near.isEmpty then ""
    else "\n\nDid you mean this?\n" ++ Text.concat (near.map fun n => "\t" ++ n ++ "\n")
  .plain ("unknown command " ++ word.quoted ++ " for " ++ program.quoted ++ advice)

def locate (words : List Text) : Except Failure (Option Spec × List Text) :=
  match bareWords commonFlags words with
  | [] => .ok (none, words)
  | name :: _ =>
    match specs.find? (·.name = name) with
    | some s => .ok (some s, without commonFlags name words)
    | none => .error (unknownCommand name)

/-! ### Requests -/

inductive Request where
  | help
  | compile (path target : Text)
  | run (path target : Text) (summary : Bool)
  | backends (health : Bool)
  | inspect (path : Text)
  | version

structure Options where
  configFile : Text := ""
  logLevel : Text := ""
  json : Bool := false

def Spec.request (s : Spec) (p : Parsed) : Except Failure Request :=
  if s.arity.any fun n => n ≠ p.args.length then
    .error (Failure.invalidInput "args" (program ++ " " ++ s.name ++ " accepts "
      ++ Text.ofNat (s.arity.getD 0) ++ " arg(s), received " ++ Text.ofNat p.args.length))
  else
    let path := p.args.headD ""
    .ok (if s.name = "compile" then .compile path (p.value "target")
      else if s.name = "run" then .run path (p.value "target") (p.isOn "summary")
      else if s.name = "backends" then .backends (p.isOn "health")
      else if s.name = "inspect" then .inspect path
      else if s.name = "version" then .version
      else .help)

def parse (words : List Text) : Options × Except Failure Request :=
  match locate words with
  | .error f => ({}, .error f)
  | .ok (spec, rest) =>
    let flags := ((spec.map Spec.flags).getD []) ++ commonFlags ++ [helpFlag]
    let p := Parsed.read flags {} rest
    let options : Options :=
      { configFile := p.value "config", logLevel := p.value "log-level", json := p.isOn "json" }
    (options, match p.fault, spec with
      | some fault, _ => .error (Failure.invalidInput "flags" fault.text)
      | none, none => .ok .help
      | none, some s => if p.isOn "help" then .ok .help else s.request p)

end Dataflow.Command
