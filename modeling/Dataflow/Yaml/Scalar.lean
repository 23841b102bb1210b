import Dataflow.Yaml.Cursor

/-!
# Reading scalars

A scalar is written plainly, between single or double quotes, or as a block of lines.  In the first
two a line break is folded: one becomes a blank, and of more all but the first are kept.  A block is
literal or folded, and says what becomes of the line breaks at its end.
-/

namespace Dataflow.Yaml

/-- The characters of a scalar so far, and the blanks and line breaks after them that may turn out
to stand inside it. -/
structure Folded where
  chars : Array Char := #[]
  blanks : Array Char := #[]
  first : Array Char := #[]
  further : Array Char := #[]
  ended : Bool := false

namespace Folded

def breaks (first further : Array Char) : Array Char :=
  if first[0]? = some '\n' then (if further.isEmpty then #[' '] else further) else first ++ further

def join (f : Folded) : Folded :=
  if f.ended then { chars := f.chars ++ breaks f.first f.further }
  else { chars := f.chars ++ f.blanks }

end Folded

namespace Lexing

/-- Passes blanks and line breaks; the first character has been required.  Where a line has ended, a
tab left of the given column is a mistake. -/
def readGap (column : Int) (f : Folded) : Lexing Folded :=
  repeatStep (fun (f : Folded) => do
    let c ← get
    let char := c.ahead 0
    if isBlank char then
      if f.ended && char = '\t' && c.column < column then failure
      skip
      require 1
      return (if f.ended then f else { f with blanks := f.blanks.push char }, true)
    else if isBreak char then
      require 2
      let f ←
        if f.ended then do pure { f with further := ← readLine f.further }
        else do pure { f with blanks := #[], first := ← readLine f.first, ended := true }
      require 1
      return (f, true)
    else return (f, false)) f

/-! ### Plain scalars -/

def plainEnds (flow : Bool) (c : Cursor) : Bool :=
  let char := c.ahead 0
  (char = ':' && isGap (c.ahead 1))
    || (flow && (char = ',' || char = '?' || char = '[' || char = ']' || char = '\x7b' || char = '\x7d'))

def readPlainWord (flow : Bool) (f : Folded) : Lexing Folded :=
  repeatStep (fun (f : Folded) => do
    let c ← get
    if isGap (c.ahead 0) || plainEnds flow c then return (f, false)
    let f := f.join
    let chars ← read f.chars
    require 2
    return ({ f with chars }, true)) f

/-- A plain scalar, and whether a line ended after it.  Outside brackets it goes on only right of the
given column. -/
def readPlain (flow : Bool) (indent : Int) : Lexing (Array Char × Bool) := do
  let f ← repeatStep (fun (f : Folded) => do
    require 4
    let c ← get
    if c.atDocumentMark || c.ahead 0 = '#' then return (f, false)
    let f ← readPlainWord flow f
    let char ← here
    if !(isBlank char || isBreak char) then return (f, false)
    require 1
    let f ← readGap (indent + 1) f
    return (f, flow || indent < (← get).column)) {}
  return (f.chars, f.ended)

/-! ### Quoted scalars -/

def escape? (c : Char) : Option Char :=
  match c with
  | '0' => some '\x00'
  | 'a' => some '\x07'
  | 'b' => some '\x08'
  | 't' | '\t' => some '\t'
  | 'n' => some '\n'
  | 'v' => some '\x0b'
  | 'f' => some '\x0c'
  | 'r' => some '\r'
  | 'e' => some '\x1b'
  | ' ' | '"' | '\'' | '\\' => some c
  | 'N' => some '\u0085'
  | '_' => some '\u00a0'
  | 'L' => some '\u2028'
  | 'P' => some '\u2029'
  | _ => none

def escapeSize? (c : Char) : Option Nat :=
  match c with
  | 'x' => some 2
  | 'u' => some 4
  | 'U' => some 8
  | _ => none

def hexDigit? (c : Char) : Option Nat :=
  if c.toNat < 0x80 then Byte.hexValue? (byte c) else none

def readCode (size : Nat) : Lexing Char := do
  require size
  let c ← get
  let n ← ((List.range size).foldlM (fun n k => do return n * 16 + (← hexDigit? (c.ahead k))) 0 :
    Option Nat)
  if h : n.isValidChar then
    for _ in [0:size] do skip
    return Char.ofNatAux n h
  else failure

def readQuotedWord (single : Bool) (f : Folded) : Lexing Folded :=
  repeatStep (fun (f : Folded) => do
    let c ← get
    let char := c.ahead 0
    let after := c.ahead 1
    let quote := if single then '\'' else '"'
    if isGap char then return (f, false)
    else if single && char = quote && after = quote then
      skip
      skip
      require 2
      return ({ f with chars := f.chars.push char }, true)
    else if char = quote then return (f, false)
    else if !single && char = '\\' then
      if isBreak after then
        require 3
        skip
        skipLine
        return ({ f with ended := true }, false)
      else
        let read : Char ← match escape? after, escapeSize? after with
          | some e, _ => do
            skip
            skip
            pure e
          | none, some size => do
            skip
            skip
            readCode size
          | none, none => failure
        require 2
        return ({ f with chars := f.chars.push read }, true)
    else
      let chars ← read f.chars
      require 2
      return ({ f with chars }, true)) f

def readQuoted (single : Bool) : Lexing (Array Char) := do
  skip
  let f ← repeatStep (fun (f : Folded) => do
    require 4
    let c ← get
    if c.atDocumentMark || isEnd (c.ahead 0) then failure
    let f ← readQuotedWord single f
    require 1
    if (← here) = (if single then '\'' else '"') then return (f, false)
    let f ← readGap 0 f
    return (f.join, true)) {}
  skip
  return f.chars

/-! ### Blocks -/

inductive Chomping where
  | strip
  | clip
  | keep
deriving DecidableEq

def chomping? (c : Char) : Option Chomping :=
  if c = '+' then some .keep else if c = '-' then some .strip else none

/-- The signs after the indicator of a block: what becomes of its end, and how far it is indented. -/
def readBlockSigns : Lexing (Chomping × Option Nat) := do
  let digit : Lexing (Option Nat) := do
    let c ← here
    if c = '0' then failure
    if c.isDigit then
      skip
      return some (c.toNat - 48)
    else return none
  let chomping : Lexing (Option Chomping) := do
    match chomping? (← here) with
    | some k => do
      skip
      return some k
    | none => return none
  require 1
  match ← chomping with
  | some k => do
    require 1
    return (k, ← digit)
  | none =>
    match ← digit with
    | some n => do
      require 1
      return ((← chomping).getD .clip, some n)
    | none => return (.clip, none)

/-- Passes the indentation of lines and empty lines, of which the line breaks are added to others.
Without a column given it is the greatest one that an empty line reaches, or the next line, but one
that is deep enough. -/
def readBlockBreaks (indent : Int) (column : Option Nat) (breaks : Array Char) :
    Lexing (Nat × Array Char) := do
  let inside (c : Cursor) : Bool := match column with
    | some n => c.column < n
    | none => true
  let (deepest, breaks) ← repeatStep (fun ((deepest, breaks) : Nat × Array Char) => do
    require 1
    repeatStep (fun _ => do
      let c ← get
      if inside c && c.ahead 0 = ' ' then
        skip
        require 1
        return ((), true)
      else return ((), false)) ()
    let c ← get
    let deepest := max deepest c.column
    if inside c && c.ahead 0 = '\t' then failure
    if isBreak (c.ahead 0) then
      require 2
      let breaks ← readLine breaks
      return ((deepest, breaks), true)
    else return ((deepest, breaks), false)) (0, breaks)
  return (column.getD (max deepest (max (indent + 1) 1).toNat), breaks)

structure BlockLines where
  chars : Array Char := #[]
  last : Array Char := #[]
  further : Array Char := #[]
  deeper : Bool := false

def readBlock (literal : Bool) (indent : Int) : Lexing (Array Char) := do
  skip
  let (chomping, increment) ← readBlockSigns
  skipBlanks
  endLine
  let column := increment.map fun n => (max indent 0).toNat + n
  let (column, further) ← readBlockBreaks indent column #[]
  require 1
  let b ← repeatStep (fun (b : BlockLines) => do
    let c ← get
    if c.column ≠ column || isEnd (c.ahead 0) then return (b, false)
    let deeper := isBlank (c.ahead 0)
    let folds := !literal && !b.deeper && !deeper && b.last[0]? = some '\n'
    let start := b.chars
      ++ (if folds then (if b.further.isEmpty then #[' '] else #[]) else b.last) ++ b.further
    let chars ← readWhile (fun c => !isBreakOrEnd c) start
    require 2
    let last ← readLine #[]
    let (_, further) ← readBlockBreaks indent (some column) #[]
    return ({ chars, last, further, deeper }, true)) { further }
  return b.chars ++ (if chomping = .strip then #[] else b.last)
    ++ (if chomping = .keep then b.further else #[])

end Lexing

end Dataflow.Yaml
