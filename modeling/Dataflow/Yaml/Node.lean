import Dataflow.Yaml.Plain
import Dataflow.Yaml.Stream

/-!
# Nodes

A document is a node: a scalar with its tag, a sequence, a mapping, or a reference to a node with an
anchor.  `Node.read?` puts the first document of a stream together from its tokens.
-/

namespace Dataflow.Yaml

inductive Node where
  /-- A scalar with its tag in short form. -/
  | scalar (tag t : Text)
  | sequence (items : List Node)
  | mapping (entries : List (Node × Node))
  /-- The name of an anchor, and its node unless the reference stands inside of that. -/
  | reference (name : Text) (target : Option Node)

namespace Node

def empty : Node := scalar "!!null" ""

def ofScalar (tag : Text) (plain : Bool) (t : Text) : Node :=
  if tag ≠ "" && tag ≠ "!" then scalar (shortTag tag) t
  else if !plain then scalar "!!str" t
  else if t = "<<" then scalar "!!merge" t
  else scalar (tagOf (plainValue true t)) t

end Node

structure Anchor where
  name : Text
  number : Nat
  node : Option Node

structure Composition where
  stream : Stream
  handles : List (Text × Text) := []
  anchors : List Anchor := []

abbrev Composing := StateT Composition Option

namespace Composing

def scan {α : Type} (x : Scanning α) : Composing α := fun c =>
  (x c.stream).map fun (a, stream) => (a, { c with stream })

def peek : Composing Token := scan Scanning.peek

def take : Composing Unit := scan Scanning.take

def takeIf (t : Token) : Composing Bool := do
  if (← peek) = t then
    take
    return true
  else return false

/-! ### Anchors and tags -/

def openAnchor : Option Text → Composing (Option Nat)
  | none => return none
  | some name => do
    let c ← get
    let number := c.anchors.length
    set { c with anchors := ⟨name, number, none⟩ :: c.anchors }
    return some number

def closeAnchor (number : Option Nat) (n : Node) : Composing Node := do
  if number.isSome then
    modify fun c => { c with
      anchors := c.anchors.map fun a =>
        if some a.number = number then { a with node := some n } else a }
  return n

def refer (name : Text) : Composing Node := do
  match (← get).anchors.find? (·.name = name) with
  | some a => return .reference name a.node
  | none => failure

def meaning (handle rest : Text) : Composing Text := do
  if handle.isEmpty then return rest
  match (← get).handles.find? (·.1 = handle) with
  | some (_, m) => return m ++ rest
  | none => failure

def properties : Composing (Option Text × Text) := do
  let tag : Composing (Option Text) := do
    match ← peek with
    | .tag handle rest => do
      take
      return some (← meaning handle rest)
    | _ => return none
  let anchor : Composing (Option Text) := do
    match ← peek with
    | .anchor name => do
      take
      return some name
    | _ => return none
  let name ← anchor
  let tag ← tag
  let name ← if name.isSome || tag.isNone then pure name else anchor
  return (name, tag.getD "")

/-! ### Nodes -/

def endsBlockEntry (t : Token) : Bool := t = .key || t = .value || t = .blockEnd

def endsFlowEntry (close t : Token) : Bool := t = .comma || t = close

/-- What a step finds, again and again, at most so many times; it knows whether it is the first. -/
def repeated {α : Type} (item? : Bool → Composing (Option α)) : Nat → Array α → Composing (List α)
  | 0, _ => failure
  | n + 1, found => do
    match ← item? found.isEmpty with
    | some a => repeated item? n (found.push a)
    | none => return found.toList

/-- A node, which may be left out before certain tokens. -/
def orEmpty (ends : Token → Bool) (node : Composing Node) : Composing Node := do
  if ends (← peek) then return Node.empty else node

/-- The value of a key, which may be left out with its mark. -/
def valueOf (ends : Token → Bool) (node : Composing Node) : Composing Node := do
  if ← takeIf .value then orEmpty ends node else return Node.empty

section

variable (steps : Nat) (node : Bool → Bool → Composing Node)

def blockItems (indentless : Bool) : Composing (List Node) :=
  repeated (fun _ => do
    if ← takeIf .dash then
      return some (← orEmpty
        (fun t => t = .dash || t = .blockEnd || (indentless && endsBlockEntry t)) (node true false))
    else if indentless then return none
    else if ← takeIf .blockEnd then return none
    else failure) steps #[]

def blockEntries : Composing (List (Node × Node)) :=
  repeated (fun _ => do
    if ← takeIf .key then
      let key ← orEmpty endsBlockEntry (node true true)
      return some (key, ← valueOf endsBlockEntry (node true true))
    else if ← takeIf .blockEnd then return none
    else failure) steps #[]

def flow {α : Type} (close : Token) (item : Composing α) : Composing (List α) :=
  repeated (fun first => do
    if ← takeIf close then return none
    if !first && !(← takeIf .comma) then failure
    if ← takeIf close then return none
    return some (← item)) steps #[]

/-- An entry in brackets after its key mark.  If its key is left out in a sequence, so is the token
after it. -/
def flowEntry (close : Token) : Composing (Node × Node) := do
  let t ← peek
  let key ←
    if t = .value || endsFlowEntry close t then do
      if close = .flowSequenceEnd then take
      pure Node.empty
    else node false false
  return (key, ← valueOf (endsFlowEntry close) (node false false))

/-- The elements of a sequence in brackets.  A mapping of one entry may do without brackets of its
own. -/
def flowItems : Composing (List Node) :=
  flow steps .flowSequenceEnd do
    if ← takeIf .key then return .mapping [← flowEntry node .flowSequenceEnd]
    else node false false

def flowEntries : Composing (List (Node × Node)) :=
  flow steps .flowMappingEnd do
    if ← takeIf .key then flowEntry node .flowMappingEnd
    else return (← node false false, Node.empty)

end

/-- The next node, in at most so many steps.  Blocks may be wanted or not, and so may sequences that
are indented like what surrounds them. -/
def node : Nat → Bool → Bool → Composing Node
  | 0, _, _ => failure
  | steps + 1, block, indentless => do
    match ← peek with
    | .reference name =>
      take
      refer name
    | _ =>
      let (name, tag) ← properties
      let number ← openAnchor name
      let n : Node ← match ← peek with
        | .scalar plain t => do
          take
          pure (.ofScalar tag plain t)
        | .flowSequence => do
          take
          pure (.sequence (← flowItems steps (node steps)))
        | .flowMapping => do
          take
          pure (.mapping (← flowEntries steps (node steps)))
        | t =>
          if indentless && t = .dash then do pure (.sequence (← blockItems steps (node steps) true))
          else if block && t = .blockSequence then do
            take
            pure (.sequence (← blockItems steps (node steps) false))
          else if block && t = .blockMapping then do
            take
            pure (.mapping (← blockEntries steps (node steps)))
          else if number.isSome || tag ≠ "" then pure (.ofScalar tag true "")
          else failure
      closeAnchor number n

/-! ### Documents -/

/-- The handles of tags that need no directive. -/
def standardHandles : List (Text × Text) := [("!", "!"), ("!!", "tag:yaml.org,2002:")]

/-- The directives before a document, at most so many; `versioned` says whether the version has been
named. -/
def directives (versioned : Bool) : Nat → Composing Unit
  | 0 => failure
  | n + 1 => do
    match ← peek with
    | .version major minor =>
      if versioned || major ≠ 1 || minor ≠ 1 then failure
      take
      directives true n
    | .handle name meaning =>
      let c ← get
      if c.handles.any (·.1 = name) then failure
      set { c with handles := c.handles ++ [(name, meaning)] }
      take
      directives versioned n
    | _ => modify fun c => { c with handles := c.handles ++ standardHandles }

def isOutside : Token → Bool
  | .version _ _ | .handle _ _ | .documentStart | .documentEnd | .streamEnd => true
  | _ => false

def document (steps : Nat) : Composing (Option Node) := do
  if !(← takeIf .streamStart) then failure
  match ← peek with
  | .streamEnd => return none
  | t =>
    directives false steps
    let root ←
      if t ≠ .documentEnd && isOutside t then do
        if !(← takeIf .documentStart) then failure
        if isOutside (← peek) then pure Node.empty else node steps true false
      else node steps true false
    let _ ← takeIf .documentEnd
    return some root

end Composing

/-- The first document in a text, if there is one; the outer option is empty where the text is no
YAML. -/
def Node.read? (t : Text) : Option (Option Node) :=
  let stream := Stream.ofText t
  let steps := 4 * stream.cursor.source.chars.size + 64
  ((Composing.document steps).run { stream }).map Prod.fst

end Dataflow.Yaml
