import Dataflow.Yaml.Scalar

/-!
# Tokens

The tokens of a document: marks of its structure, directives, the properties of nodes, and scalars.
This module reads those whose form does not depend on what surrounds them: directives, anchors and
tags.
-/

namespace Dataflow.Yaml

inductive Token where
  | streamStart
  | streamEnd
  | version (major minor : Nat)
  | handle (name meaning : Text)
  | documentStart
  | documentEnd
  | blockSequence
  | blockMapping
  | blockEnd
  | flowSequence
  | flowSequenceEnd
  | flowMapping
  | flowMappingEnd
  | dash
  | comma
  | key
  | value
  | anchor (name : Text)
  /-- The name of an anchor in place of its node. -/
  | reference (name : Text)
  /-- A tag by its handle, which may be empty, and the rest. -/
  | tag (handle rest : Text)
  | scalar (plain : Bool) (t : Text)
deriving DecidableEq

namespace Lexing

def endsName (c : Char) : Bool := isGap c || "?:,]\x7d%@\x60".toList.contains c

def readAnchor : Lexing Text := do
  skip
  require 1
  let name ← readWhile isNameChar #[]
  if name.isEmpty || !endsName (← here) then failure
  return Text.ofChars name.toList

/-- The handle of a tag: an exclamation mark, possibly with a name and a second one.  In a directive
there is no name without the second one. -/
def readHandle (directive : Bool) : Lexing Text := do
  require 1
  if (← here) ≠ '!' then failure
  let name ← read #[]
  require 1
  let name ← readWhile isNameChar name
  let name ←
    if (← here) = '!' then read name
    else if directive && name.size ≠ 1 then failure
    else pure name
  return Text.ofChars name.toList

def isTagChar (c : Char) : Bool := isNameChar c || ";/?:@&=+$,.!~*'()[]%".toList.contains c

def readOctet : Lexing UInt8 := do
  require 3
  let c ← get
  if c.ahead 0 ≠ '%' then failure
  let high ← (hexDigit? (c.ahead 1) : Option Nat)
  let low ← (hexDigit? (c.ahead 2) : Option Nat)
  skip
  skip
  skip
  return (high * 16 + low).toUInt8

def readOctets (bs : Array UInt8) : Lexing (Array UInt8) := do
  let b ← readOctet
  match Front.lead? b with
  | none => failure
  | some (size, _) =>
    (List.range (size - 1)).foldlM (fun bs _ => do
      let b ← readOctet
      if b.toNat / 64 ≠ 2 then failure
      return bs.push b) (bs.push b)

/-- The rest of a tag after what has been read of it; with nothing read before, it is not empty. -/
def readTagRest (start : Array UInt8) (begun : Bool) : Lexing Text := do
  require 1
  let (bs, begun) ← repeatStep (fun ((bs, begun) : Array UInt8 × Bool) => do
    let c ← here
    if isTagChar c then
      let bs ←
        if c = '%' then readOctets bs
        else do
          skip
          pure (bs.push (byte c))
      require 1
      return ((bs, true), true)
    else return ((bs, begun), false)) (start, begun)
  if !begun then failure
  return ⟨bs.toList⟩

/-- A tag, of which the exclamation mark is here: in angle brackets, with a handle, or with the plain
handle.  A lone mark is a tag without a handle. -/
def readTag : Lexing Token := do
  require 2
  let token ←
    if (← ahead 1) = '<' then do
      skip
      skip
      let rest ← readTagRest #[] false
      if (← here) ≠ '>' then failure
      skip
      pure (Token.tag "" rest)
    else do
      let handle ← readHandle false
      if 1 < handle.length && handle.endsWith "!" then
        pure (Token.tag handle (← readTagRest #[] false))
      else
        let rest ← readTagRest (handle.drop 1).bytes.toArray true
        pure (if rest.isEmpty then Token.tag "" "!" else Token.tag "!" rest)
  require 1
  if !isGap (← here) then failure
  return token

def readVersionNumber : Lexing Nat := do
  require 1
  let ds ← readWhile Char.isDigit #[]
  if ds.isEmpty || 2 < ds.size then failure
  return ds.foldl (fun n d => n * 10 + (d.toNat - 48)) 0

def readDirective : Lexing Token := do
  skip
  require 1
  let name ← readWhile isNameChar #[]
  if name.isEmpty || !isGap (← here) then failure
  let token ← match String.ofList name.toList with
    | "YAML" => do
      skipBlanks
      let major ← readVersionNumber
      if (← here) ≠ '.' then failure
      skip
      pure (Token.version major (← readVersionNumber))
    | "TAG" => do
      skipBlanks
      let handle ← readHandle true
      require 1
      if !isBlank (← here) then failure
      skipBlanks
      let meaning ← readTagRest #[] false
      require 1
      if !isGap (← here) then failure
      pure (Token.handle handle meaning)
    | _ => failure
  skipBlanks
  endLine
  return token

end Lexing

end Dataflow.Yaml
