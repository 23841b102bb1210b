import Dataflow.Text.Basic

/-!
# Commands of a shell

A script is a list of commands.  A word of a command is a list of parts, some of which the shell
replaces: parameters, the output of commands, and sums.  What stands in quotes is not taken apart
afterwards.
-/

namespace Dataflow.Shell

inductive Remedy where
  /-- A word stands in for it. -/
  | replace
  /-- It becomes a word. -/
  | assign
  /-- The script ends with a word as its complaint. -/
  | complain
deriving DecidableEq

inductive Access where
  | read
  | write
  | append
  | both
deriving DecidableEq

mutual

inductive Part where
  | text (quoted : Bool) (t : Text)
  | parameter (quoted : Bool) (name : Text) (use : Use)
  | output (quoted : Bool) (commands : List Command)
  | number (quoted : Bool) (expression : List Part)

/-- What is made of the value of a parameter.  With `orEmpty`, an empty value counts as none. -/
inductive Use where
  | value
  | length
  | absent (orEmpty : Bool) (remedy : Remedy) (word : List Part)
  | present (orEmpty : Bool) (word : List Part)
  /-- Without what a pattern matches at one end. -/
  | trimmed (atEnd longest : Bool) (pattern : List Part)
  | unknown

inductive Redirect where
  | file (stream : Nat) (access : Access) (path : List Part)
  | copy (stream : Nat) (source : List Part)
  | here (stream : Nat) (content : List Part)

inductive Command where
  | simple (line : Nat) (settings : List (Text × List Part)) (words : List (List Part))
      (redirects : List Redirect)
  | pipe (commands : List Command)
  | negate (command : Command)
  /-- The second command runs only after a success of the first. -/
  | both (first second : Command)
  /-- The second command runs only after a failure of the first. -/
  | either (first second : Command)
  | background (command : Command)
  | group (commands : List Command) (redirects : List Redirect)
  | subshell (commands : List Command) (redirects : List Redirect)
  | choice (test yes no : List Command) (redirects : List Redirect)
  /-- The body runs again and again while the test has the success that is told. -/
  | loop (success : Bool) (test body : List Command) (redirects : List Redirect)
  /-- The body runs for each word; without words, for each argument. -/
  | each (line : Nat) (name : Text) (words : Option (List (List Part))) (body : List Command)
      (redirects : List Redirect)
  /-- The commands of the first arm run of which a pattern matches the word. -/
  | select (line : Nat) (word : List Part) (arms : List (List (List Part) × List Command))
      (redirects : List Redirect)
  | define (line : Nat) (name : Text) (body : Command)

end

abbrev Word := List Part

def isNameByte (b : UInt8) : Bool :=
  Byte.isLower b || Byte.isUpper b || Byte.isDigit b || b = byte '_'

def isSpace (b : UInt8) : Bool := b = 32 || (9 ≤ b && b ≤ 13)

def isName (t : Text) : Bool :=
  t.all isNameByte && (t.bytes.head?).any (!Byte.isDigit ·)

def bare? : Word → Option Text
  | [.text false t] => some t
  | _ => none

def setting? : Word → Option (Text × Word)
  | .text false t :: rest => do
    let (name, value) ← t.cut? "="
    if isName name then
      return (name, if value.isEmpty then rest else .text false value :: rest)
    else none
  | _ => none

end Dataflow.Shell
