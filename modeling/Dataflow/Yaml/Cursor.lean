import Dataflow.Yaml.Source

/-!
# Reading characters

A `Cursor` is a place in a document, and `Lexing` moves it.  Before a character is looked at it has
to be required: that is where a portion of the document is read, and where reading can fail.  A line
ends with a line feed, a carriage return or both, with NEL, or with one of the two separators of
Unicode, which alone are kept as they are.
-/

namespace Dataflow.Yaml

def isBlank (c : Char) : Bool := c = ' ' || c = '\t'

def isBreak (c : Char) : Bool :=
  c = '\r' || c = '\n' || c.toNat = 0x85 || c.toNat = 0x2028 || c.toNat = 0x2029

def isEnd (c : Char) : Bool := c.toNat = 0

def isBreakOrEnd (c : Char) : Bool := isBreak c || isEnd c

def isGap (c : Char) : Bool := isBlank c || isBreakOrEnd c

def isNameChar (c : Char) : Bool := c.isAlphanum || c = '_' || c = '-'

structure Cursor where
  source : Source
  /-- The number of characters before it. -/
  index : Nat := 0
  line : Nat := 0
  column : Nat := 0
  lineEnds : Nat := 0
  loaded : Nat := 0
  held : Nat := 0

abbrev Lexing := StateT Cursor Option

namespace Cursor

def ahead (c : Cursor) (k : Nat) : Char := c.source.charAt (c.index + k)

def atMark (c : Cursor) (m : Char) : Bool :=
  c.column = 0 && c.ahead 0 = m && c.ahead 1 = m && c.ahead 2 = m && isGap (c.ahead 3)

def atDocumentMark (c : Cursor) : Bool := c.atMark '-' || c.atMark '.'

def next (c : Cursor) : Cursor :=
  { c with
    index := c.index + 1, column := c.column + 1
    lineEnds := if isBlank (c.ahead 0) then c.lineEnds else 0 }

def nextLine (c : Cursor) : Cursor :=
  let size := if c.ahead 0 = '\r' && c.ahead 1 = '\n' then 2 else 1
  { c with index := c.index + size, column := 0, line := c.line + 1, lineEnds := c.lineEnds + 1 }

/-- What the end of a line here stands for: a line feed, unless it is a separator of Unicode. -/
def breakChar (c : Cursor) : Char :=
  let here := c.ahead 0
  if here.toNat = 0x2028 || here.toNat = 0x2029 then here else '\n'

end Cursor

namespace Lexing

def require (n : Nat) : Lexing Unit := fun c =>
  if c.index + n ≤ c.loaded then some ((), c)
  else (c.source.load? c.loaded (c.index + n)).map fun loaded =>
    ((), { c with loaded, held := c.index })

def ahead (k : Nat) : Lexing Char := return (← get).ahead k

def here : Lexing Char := ahead 0

def skip : Lexing Unit := modify Cursor.next

def skipLine : Lexing Unit := modify fun c => if isBreak (c.ahead 0) then c.nextLine else c

def read (cs : Array Char) : Lexing (Array Char) := do
  let c ← here
  skip
  return cs.push c

/-- Passes the end of a line, if there is one here, and adds what it stands for to the others. -/
def readLine (cs : Array Char) : Lexing (Array Char) := do
  let c ← get
  if isBreak (c.ahead 0) then
    set c.nextLine
    return cs.push c.breakChar
  else return cs

/-- Repeats a step as long as it says so, at most so many times. -/
def repeatAtMost {σ : Type} (step : σ → Lexing (σ × Bool)) : Nat → σ → Lexing σ
  | 0, _ => failure
  | n + 1, s => do
    let (s, more) ← step s
    if more then repeatAtMost step n s else return s

def repeatStep {σ : Type} (step : σ → Lexing (σ × Bool)) (s : σ) : Lexing σ := do
  repeatAtMost step ((← get).source.chars.size + 8) s

def readWhile (kind : Char → Bool) (cs : Array Char) : Lexing (Array Char) :=
  repeatStep (fun cs => do
    if kind (← here) then
      let cs ← read cs
      require 1
      return (cs, true)
    else return (cs, false)) cs

def skipWhile (kind : Char → Bool) : Lexing Unit := do
  let _ ← readWhile kind #[]

def skipBlanks : Lexing Unit := do
  require 1
  skipWhile isBlank

def endLine : Lexing Unit := do
  if (← here) = '#' then skipWhile fun c => !isBreakOrEnd c
  if !isBreakOrEnd (← here) then failure
  if isBreak (← here) then
    require 2
    skipLine

/-- Passes everything up to a position, across lines, and the rest of the line there. -/
def skipComment (start : Nat) : Lexing Unit :=
  repeatStep (fun _ => do
    require 1
    let c ← get
    if isBreakOrEnd (c.ahead 0) then
      if start ≤ c.index then return ((), false)
      require 2
      skipLine
    else skip
    return ((), true)) ()

/-- How far the search for a comment goes. -/
def commentReach : Nat := 512

/-- Passes a comment here, and those that follow after blanks and ends of lines only; `k` is how far
ahead the search is. -/
def skipComments : Lexing Unit := do
  let _ ← repeatStep (fun (k : Nat) => do
    if commentReach ≤ k then return (k, false)
    require (k + 1)
    let c ← get
    let char := c.ahead k
    -- A character of more than one byte is as far as the search goes, also where it ends a line.
    if k ≠ 0 && (c.ahead (k - 1)).toNat ≥ 0x80 then return (k, false)
    if isBlank char || isBreak char then return (k + 1, true)
    if char ≠ '#' then return (k, false)
    skipComment (c.index + k)
    return (1, true)) 0

def skipLineComment : Lexing Unit := do
  if (← get).lineEnds = 0 then
    let _ ← repeatStep (fun (k : Nat) => do
      if commentReach ≤ k then return (k, false)
      require (k + 1)
      let c ← get
      if isBlank (c.ahead k) then return (k + 1, true)
      if c.ahead k = '#' then skipComment (c.index + k)
      return (k, false)) 0

end Lexing

end Dataflow.Yaml
