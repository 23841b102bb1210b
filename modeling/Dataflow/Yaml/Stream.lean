import Dataflow.Yaml.Token

/-!
# The stream of tokens

Tokens are read one after another.  What a character means depends on how deep it stands in brackets,
on the indentation, and on whether a key may start at it.  That something was a key shows only at the
colon after it, so a stream reads ahead: `Stream.peek` gives the next token once its meaning is
settled and two more have been read.
-/

namespace Dataflow.Yaml

structure PossibleKey where
  required : Bool
  number : Nat
  index : Nat
  line : Nat
  column : Nat

/-- Whether a key that is still open at a cursor may be one: it stands on one line and is not too
long. -/
def PossibleKey.fits (k : PossibleKey) (c : Cursor) : Bool :=
  c.line ≤ k.line && c.index ≤ k.index + 1024

structure Stream where
  cursor : Cursor
  tokens : Array Token := #[]
  head : Nat := 0
  /-- The column of the innermost block, and those around it. -/
  indent : Int := -1
  indents : List Int := []
  depth : Nat := 0
  key : Option PossibleKey := none
  keys : List (Option PossibleKey) := []
  keyAllowed : Bool := true

abbrev Scanning := StateT Stream Option

namespace Scanning

def lex {α : Type} (l : Lexing α) : Scanning α := fun s =>
  (l s.cursor).map fun (a, cursor) => (a, { s with cursor })

def push (t : Token) : Scanning Unit := modify fun s => { s with tokens := s.tokens.push t }

def insert (number : Nat) (t : Token) : Scanning Unit :=
  modify fun s => { s with tokens := s.tokens.insertIdxIfInBounds number t }

def allowKey (allowed : Bool) : Scanning Unit := modify fun s => { s with keyAllowed := allowed }

def maxDepth : Nat := 10000

/-! ### Keys -/

def dropKey : Scanning Unit := do
  match (← get).key with
  | some k => if k.required then failure else modify fun s => { s with key := none }
  | none => return

def noteKey : Scanning Unit := do
  let s ← get
  if s.keyAllowed then
    dropKey
    let c := s.cursor
    let required := s.depth = 0 && s.indent = c.column
    modify fun s => { s with key := some ⟨required, s.tokens.size, c.index, c.line, c.column⟩ }

def openKey : Scanning (Option PossibleKey) := do
  let s ← get
  match s.key with
  | none => return none
  | some k =>
    if k.fits s.cursor then return some k
    else
      dropKey
      return none

/-! ### Indentation -/

/-- Opens a block at a column right of the surrounding one; its first token comes before the one with
the given number, or last. -/
def openBlock (column : Nat) (number : Option Nat) (t : Token) : Scanning Unit := do
  let s ← get
  if s.depth = 0 && s.indent < column then
    if maxDepth ≤ s.indents.length then failure
    set { s with indent := (column : Int), indents := s.indent :: s.indents }
    match number with
    | some n => insert n t
    | none => push t

/-- Closes the blocks right of a column; the list holds the columns around them. -/
def closeTo (column : Int) : List Int → Scanning Unit
  | [] => return
  | outer :: rest => do
    if column < (← get).indent then
      modify fun s => { s with tokens := s.tokens.push .blockEnd, indent := outer, indents := rest }
      closeTo column rest

/-- Closes the blocks right of a column; inside brackets there are none. -/
def closeBlocks (column : Int) : Scanning Unit := do
  let s ← get
  if s.depth = 0 then closeTo column s.indents

/-! ### Tokens -/

def passGap : Scanning Bool := do
  lex (Lexing.require 1)
  let c := (← get).cursor
  if c.column = 0 && (c.source.charAt c.held).toNat = 0xFEFF then lex Lexing.skip
  lex (Lexing.require 1)
  let s ← get
  let tabs := 0 < s.depth || !s.keyAllowed
  lex (Lexing.skipWhile fun c => c = ' ' || (tabs && c = '\t'))
  if (← lex Lexing.here) = '#' then lex Lexing.skipComments
  if isBreak (← lex Lexing.here) then
    lex (Lexing.require 2)
    lex Lexing.skipLine
    if (← get).depth = 0 then allowKey true
    return true
  else return false

/-- Passes everything before the next token, at most so many lines. -/
def passGaps : Nat → Scanning Unit
  | 0 => failure
  | n + 1 => do if ← passGap then passGaps n

def readStreamEnd : Scanning Unit := do
  modify fun s =>
    if s.cursor.column = 0 then s
    else { s with cursor := { s.cursor with column := 0, line := s.cursor.line + 1 } }
  closeBlocks (-1)
  dropKey
  allowKey false
  push .streamEnd

def readOutside (l : Lexing Token) : Scanning Unit := do
  closeBlocks (-1)
  dropKey
  allowKey false
  push (← lex l)

def passing (n : Nat) (t : Token) : Lexing Token := do
  for _ in [0:n] do Lexing.skip
  return t

def readFlowStart (t : Token) : Scanning Unit := do
  noteKey
  let s ← get
  if maxDepth ≤ s.depth then failure
  set { s with depth := s.depth + 1, key := none, keys := s.key :: s.keys, keyAllowed := true }
  push (← lex (passing 1 t))

def readFlowEnd (t : Token) : Scanning Unit := do
  dropKey
  modify fun s => match s.keys with
    | k :: ks => { s with depth := s.depth - 1, key := k, keys := ks, keyAllowed := false }
    | [] => { s with keyAllowed := false }
  push (← lex (passing 1 t))

def readComma : Scanning Unit := do
  dropKey
  allowKey true
  push (← lex (passing 1 .comma))

def readDash : Scanning Unit := do
  let s ← get
  if s.depth = 0 then
    if !s.keyAllowed then failure
    openBlock s.cursor.column none .blockSequence
  dropKey
  allowKey true
  push (← lex (passing 1 .dash))

def readKey : Scanning Unit := do
  let s ← get
  if s.depth = 0 then
    if !s.keyAllowed then failure
    openBlock s.cursor.column none .blockMapping
  dropKey
  allowKey (s.depth = 0)
  push (← lex (passing 1 .key))

def readValue : Scanning Unit := do
  match ← openKey with
  | some k =>
    insert k.number .key
    openBlock k.column (some k.number) .blockMapping
    modify fun s => { s with key := none, keyAllowed := false }
  | none =>
    let s ← get
    if s.depth = 0 then
      if !s.keyAllowed then failure
      openBlock s.cursor.column none .blockMapping
    allowKey (s.depth = 0)
  push (← lex (passing 1 .value))

def readInline (l : Lexing Token) : Scanning Unit := do
  noteKey
  allowKey false
  push (← lex l)

def readPlain : Scanning Unit := do
  noteKey
  let s ← get
  let (chars, ended) ← lex (Lexing.readPlain (0 < s.depth) s.indent)
  allowKey ended
  push (.scalar true (Text.ofChars chars.toList))

def readQuoted (single : Bool) : Lexing Token := do
  return .scalar false (Text.ofChars (← Lexing.readQuoted single).toList)

def readBlockScalar (literal : Bool) : Scanning Unit := do
  dropKey
  allowKey true
  let chars ← lex (Lexing.readBlock literal (← get).indent)
  push (.scalar false (Text.ofChars chars.toList))

/-- The characters that start no plain scalar, or only before certain others. -/
def isIndicator (c : Char) : Bool := "-?:,[]\x7b\x7d#&*!|>'\"%@\x60".toList.contains c

def readInside : Scanning Unit := do
  let s ← get
  let c := s.cursor.ahead 0
  let next := s.cursor.ahead 1
  let flow : Bool := 0 < s.depth
  if c = '[' then readFlowStart .flowSequence
  else if c = '\x7b' then readFlowStart .flowMapping
  else if c = ']' then readFlowEnd .flowSequenceEnd
  else if c = '\x7d' then readFlowEnd .flowMappingEnd
  else if c = ',' then readComma
  else if c = '-' && isGap next then readDash
  else if c = '?' && (flow || isGap next) then readKey
  else if c = ':' && (flow || isGap next) then readValue
  else if c = '*' then readInline (do return .reference (← Lexing.readAnchor))
  else if c = '&' then readInline (do return .anchor (← Lexing.readAnchor))
  else if c = '!' then readInline Lexing.readTag
  else if c = '|' && !flow then readBlockScalar true
  else if c = '>' && !flow then readBlockScalar false
  else if c = '\'' then readInline (readQuoted true)
  else if c = '"' then readInline (readQuoted false)
  else if !(isGap c || isIndicator c) || c = '-' || (!flow && (c = '?' || c = ':')) then readPlain
  else failure

def readToken : Scanning Unit := do
  lex (Lexing.require 1)
  if (← get).tokens.isEmpty then push .streamStart
  else
    passGaps ((← get).cursor.source.chars.size + 8)
    closeBlocks (← get).cursor.column
    lex (Lexing.require 4)
    let c := (← get).cursor
    if isEnd (c.ahead 0) then readStreamEnd
    else if c.column = 0 && c.ahead 0 = '%' then readOutside Lexing.readDirective
    else if c.atMark '-' then readOutside (passing 3 .documentStart)
    else if c.atMark '.' then readOutside (passing 3 .documentEnd)
    else
      readInside
      if (← get).tokens.back? ≠ some .dash then lex Lexing.skipLineComment

def headMayBeKey : Scanning Bool := do
  let s ← get
  let isHead (k : Option PossibleKey) : Bool := k.any (·.number = s.head)
  match (s.key :: s.keys).find? isHead with
  | some (some k) =>
    if k.fits s.cursor then return true
    if k.required then failure
    let kept (k : Option PossibleKey) : Option PossibleKey := if isHead k then none else k
    set { s with key := kept s.key, keys := s.keys.map kept }
    return false
  | _ => return false

/-- Reads ahead, at most so many tokens, until the next one is settled. -/
def readAhead : Nat → Scanning Unit
  | 0 => failure
  | n + 1 => do
    let s ← get
    let settled ← if s.head + 3 ≤ s.tokens.size then (! ·) <$> headMayBeKey else pure false
    if !settled then
      readToken
      readAhead n

def peek : Scanning Token := do
  readAhead ((← get).cursor.source.chars.size + 8)
  let s ← get
  return s.tokens.getD s.head .streamEnd

def take : Scanning Unit := modify fun s => { s with head := s.head + 1 }

end Scanning

def Stream.ofText (t : Text) : Stream :=
  { cursor := { source := Source.ofBytes (if t.isEmpty then [10] else t.bytes) } }

end Dataflow.Yaml
