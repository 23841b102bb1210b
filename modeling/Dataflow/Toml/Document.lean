import Dataflow.Toml.Number
import Dataflow.Toml.Table
import Dataflow.Toml.Text

/-!
# Documents of tables

A document is a list of lines: headers of tables, and keys with values, which belong to the table of
the last header.  `Toml.read?` is the row of a document, if it is well formed and defines nothing
twice.
-/

namespace Dataflow.Toml

def isBareKey (b : UInt8) : Bool :=
  Byte.isDigit b || Byte.isLower b || Byte.isUpper b || b = byte '-' || b = byte '_'

/-- Reads what is at the front of the bytes. -/
abbrev Reading := StateT (List UInt8) Option

def blanks : Reading Unit := modify skipBlanks

def took (c : Char) : Reading Bool := modifyGet fun bs =>
  if bs.head? = some (byte c) then (true, bs.drop 1) else (false, bs)

def expect (c : Char) : Reading Unit := do if !(← took c) then failure

def pass (rest? : List UInt8 → Option (List UInt8)) : Reading Unit := do set (← rest? (← get))

def equals : Reading Unit := do
  blanks
  expect '='
  blanks

def name : Reading Text := fun bs =>
  match bs with
  | [] => none
  | b :: r =>
    if b = byte '"' || b = 39 then lineText? b r
    else
      let run := bs.takeWhile isBareKey
      if run.isEmpty then none else some (⟨run⟩, bs.drop run.length)

/-- A key: names with dots between them; `fuel` bounds their number. -/
def names : Nat → Reading (List Text)
  | 0 => failure
  | fuel + 1 => do
    let k ← name
    blanks
    if ← took '.' then
      blanks
      return k :: (← names fuel)
    else return [k]

def key : Reading (List Text) := do names ((← get).length + 1)

/-- Passes blanks, comments and ends of lines. -/
def passLines : Nat → Reading Unit
  | 0 => failure
  | fuel + 1 => do
    blanks
    if ← took '#' then
      pass afterComment?
      passLines fuel
    else if (← get).head?.any fun b => b = 10 || b = 13 then
      pass afterNewline?
      passLines fuel

def lines : Reading Unit := do passLines ((← get).length + 1)

mutual

/-- A value at the front; `fuel` bounds the depth and the steps. -/
def value : Nat → Reading Value
  | 0 => failure
  | fuel + 1 => do
    if ← took '"' then return .text (← text? 34)
    if ← took '\'' then return .text (← text? 39)
    if ← took '[' then return .list (← elements fuel true)
    if ← took '\x7b' then return .row (toRow (← members fuel true []))
    match (← get).head? with
    | some 116 => pass (Text.afterBytes (Text.bytes "true")); return .bool true
    | some 102 => pass (Text.afterBytes (Text.bytes "false")); return .bool false
    | some _ => scalar?
    | none => failure

/-- The elements of a list up to its end.  Commas stand between them, and one may follow the last. -/
def elements : Nat → Bool → Reading (List Value)
  | 0, _ => failure
  | fuel + 1, first => do
    lines
    if ← took ']' then return []
    if !first then
      expect ','
      lines
      if ← took ']' then return []
    let v ← value fuel
    return v :: (← elements fuel false)

def members : Nat → Bool → Items → Reading Items
  | 0, _, _ => failure
  | fuel + 1, first, items => do
    blanks
    if ← took '\x7d' then return items
    if !first then
      expect ','
      blanks
    let k ← key
    equals
    members fuel false (← items.assign? k (← value fuel))

end

structure Draft where
  items : Items := []
  current : List Text := []

def Draft.head? (d : Draft) (path : List Text) (start : Text → Items → Option Items) :
    Option Draft := do
  let last ← path.getLast?
  let items ← Items.within? (start last) path.dropLast (settleAll d.items)
  return { items, current := path }

def Draft.line (d : Draft) : Reading Draft := do
  if ← took '[' then
    let isElement ← took '['
    blanks
    let path ← key
    blanks
    expect ']'
    if isElement then expect ']'
    d.head? path (if isElement then Items.element? else Items.header?)
  else
    let k ← key
    equals
    let v ← value (2 * (← get).length + 4)
    let items ← Items.within? (Items.assign? k v) d.current d.items
    return { d with items }

/-- Reads the lines of a document; `fuel` bounds their number. -/
def Draft.lines : Nat → Draft → Reading Draft
  | 0, _ => failure
  | fuel + 1, d => do
    blanks
    let d ← match (← get).head? with
      | none | some 10 | some 13 | some 35 => pure d
      | _ => d.line
    blanks
    if ← took '#' then pass afterComment?
    if (← get).isEmpty then return d
    pass afterNewline?
    Draft.lines fuel d

def read? (t : Text) : Option Row :=
  ((Draft.lines (t.length + 1) {}).run' t.bytes).map fun d => toRow d.items

end Dataflow.Toml
