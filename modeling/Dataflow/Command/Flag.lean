import Dataflow.Config.Settings

/-!
# Flags

The flags of a command line.  A flag has a name, which follows two dashes, and perhaps a letter, which
follows one.  Its value follows an equals sign or is the next word; a switch needs none.  Letters
may stand together.  Words that are no flags are the arguments, and two dashes alone end the
flags.
-/

namespace Dataflow.Command

structure Flag where
  name : Text
  letter : Option Char := none
  isSwitch : Bool := false

def Flag.display (f : Flag) : Text :=
  match f.letter with
  | some c => "-" ++ Text.ofChar c ++ ", --" ++ f.name
  | none => "--" ++ f.name

inductive FlagFault where
  | malformed (word : Text)
  | unknown (name : Text)
  | unknownLetter (b : UInt8) (letters : Text)
  | valueMissing (name : Text)
  | letterValueMissing (b : UInt8) (letters : Text)
  | noTruth (f : Flag) (value : Text)

namespace FlagFault

/-- A letter in quotes; a byte beyond ASCII is shown by the first byte of its character. -/
def letterText (b : UInt8) : Text :=
  let c := if b < 0x80 then Char.ofNat b.toNat else if b < 0xC0 then 'Â' else 'Ã'
  if c = '\'' then "'\\''" else if c = '"' then "'\"'" else "'" ++ Text.quotedChar c ++ "'"

def text : FlagFault → Text
  | malformed word => "bad flag syntax: " ++ word
  | unknown name => "unknown flag: --" ++ name
  | unknownLetter b letters => "unknown shorthand flag: " ++ letterText b ++ " in -" ++ letters
  | valueMissing name => "flag needs an argument: --" ++ name
  | letterValueMissing b letters => "flag needs an argument: " ++ letterText b ++ " in -" ++ letters
  | noTruth f value =>
    "invalid argument " ++ value.quoted ++ " for " ++ f.display.quoted
      ++ " flag: strconv.ParseBool: parsing " ++ value.quoted ++ ": invalid syntax"

end FlagFault

structure FlagStep where
  values : List (Text × Text) := []
  takesNext : Bool := false
  fault : Option FlagFault := none

namespace FlagStep

def assign (f : Flag) (value : Text) (takesNext : Bool) : FlagStep :=
  if f.isSwitch && (Settings.truth? value).isNone then { fault := some (.noTruth f value) }
  else { values := [(f.name, value)], takesNext }

def ofName (flags : List Flag) (word : Text) (next : Option Text) : FlagStep :=
  let body := word.drop 2
  if body.startsWith "-" || body.startsWith "=" then { fault := some (.malformed word) }
  else
    let (name, value) : Text × Option Text := match body.cut? "=" with
      | some (n, v) => (n, some v)
      | none => (body, none)
    match flags.find? (·.name = name) with
    | none => { fault := some (.unknown name) }
    | some f =>
      match value, next with
      | some v, _ => assign f v false
      | none, next =>
        if f.isSwitch then assign f "true" false
        else match next with
          | some v => assign f v true
          | none => { fault := some (.valueMissing name) }

/-- What letters behind one dash set.  Letters that a test runner may give count for nothing. -/
def ofLetters (flags : List Flag) (next : Option Text) : List UInt8 → FlagStep
  | [] => {}
  | b :: rest =>
    let letters : Text := ⟨b :: rest⟩
    if letters.startsWith "test." then {}
    else match flags.find? fun f => f.letter.any fun c => byte c = b with
      | none => { fault := some (.unknownLetter b letters) }
      | some f =>
        match letters.after? (⟨[b, byte '=']⟩ : Text) with
        | some v =>
          if !v.isEmpty then assign f v false
          else if f.isSwitch then
            { values := [(f.name, "true")], fault := some (.unknownLetter (byte '=') "=") }
          else assign f "=" false
        | none =>
          if f.isSwitch then
            let more := ofLetters flags next rest
            { more with values := (f.name, "true") :: more.values }
          else if !rest.isEmpty then assign f ⟨rest⟩ false
          else match next with
            | some v => assign f v true
            | none => { fault := some (.letterValueMissing b letters) }

end FlagStep

/-- A command line as read: the values of flags, the later after the earlier, and the arguments. -/
structure Parsed where
  values : List (Text × Text) := []
  args : List Text := []
  fault : Option FlagFault := none

namespace Parsed

def read (flags : List Flag) (p : Parsed) : List Text → Parsed
  | [] => p
  | [word] => (readWord flags p word none).1
  | word :: next :: rest =>
    if word = "--" then { p with args := p.args ++ next :: rest }
    else
      let (q, takesNext) := readWord flags p word (some next)
      if q.fault.isSome then q
      else if takesNext then read flags q rest
      else read flags q (next :: rest)
where
  readWord (flags : List Flag) (p : Parsed) (word : Text) (next : Option Text) : Parsed × Bool :=
    if word = "--" then (p, false)
    else if !word.startsWith "-" || word.length = 1 then ({ p with args := p.args ++ [word] }, false)
    else
      let step :=
        if word.startsWith "--" then FlagStep.ofName flags word next
        else FlagStep.ofLetters flags next (word.drop 1).bytes
      ({ p with values := p.values ++ step.values, fault := step.fault }, step.takesNext)

def value (p : Parsed) (name : Text) : Text :=
  ((p.values.reverse.find? (·.1 = name)).map Prod.snd).getD ""

def isOn (p : Parsed) (name : Text) : Bool := Settings.truth? (p.value name) = some true

end Parsed

end Dataflow.Command
