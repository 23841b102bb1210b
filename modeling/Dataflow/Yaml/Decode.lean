import Dataflow.Value.Key
import Dataflow.Yaml.Node

/-!
# The contents of nodes

A node is decoded into a value, a row, a text, a number, a list or a record.  In a row every key is
taken as the text that it is written as; the keys of a value are texts only if all of them are, and
any values otherwise.  A key may stand only once in a mapping, and the key `<<` brings in what other
mappings have beyond it.

References can make a small document mean very much.  So the nodes are counted as they are decoded,
and those inside references must not be too many of them.
-/

namespace Dataflow.Yaml

/-- The number of nodes decoded, and of those that were reached through a reference. -/
structure Tally where
  nodes : Nat := 0
  referred : Nat := 0

/-- Whether too many nodes were reached through references: more than 99 of a hundred, in large
documents fewer. -/
def Tally.isExcessive (t : Tally) : Bool :=
  100 < t.referred && 1000 < t.nodes &&
    if t.nodes ≤ 400000 then 99 * t.nodes < 100 * t.referred
    else if 4000000 ≤ t.nodes then t.nodes < 10 * t.referred
    else t.nodes * (356400000 - 89 * (t.nodes - 400000)) < 360000000 * t.referred

abbrev Decoding := StateT Tally Option

namespace Node

def writtenAlike : Node → Node → Bool
  | scalar _ s, scalar _ t => s = t
  | sequence _, sequence _ => true
  | mapping _, mapping _ => true
  | reference a _, reference b _ => a = b
  | _, _ => false

def hasRepeats : List (Node × Node) → Bool
  | [] => false
  | (k, _) :: es => es.any (fun e => writtenAlike k e.1) || hasRepeats es

def isMerge : Node → Bool
  | scalar tag t => tag = "!!merge" && t = "<<"
  | _ => false

def isText : Node → Bool
  | scalar tag _ => tag = "!!str" || tag = "!!merge"
  | reference _ (some (scalar tag _)) => tag = "!!str" || tag = "!!merge"
  | _ => false

def isMapping : Node → Bool
  | mapping _ => true
  | _ => false

end Node

namespace Decoding

def visit (referred : Bool) : Decoding Unit := do
  let t ← get
  let t : Tally := { nodes := t.nodes + 1, referred := t.referred + (if referred then 1 else 0) }
  if t.isExcessive then failure
  set t

def scalar {α : Type} (read : Text → Text → Decoding α) (referred : Bool) : Node → Decoding α
  | .scalar tag t => do
    visit referred
    read tag t
  | .reference _ (some (.scalar tag t)) => do
    visit referred
    visit true
    read tag t
  | _ => failure

def text (referred : Bool) (n : Node) : Decoding (Option Text) :=
  scalar (fun tag t => do
    match ← (scalarValue? tag t : Option Value) with
    | .null => return none
    | .text u => return some u
    | _ => return some t) referred n

/-- An integer: also a decimal without its fraction.  Nothing at all is none. -/
def int (referred : Bool) (n : Node) : Decoding (Option Int64) :=
  scalar (fun tag t => do
    match ← (scalarValue? tag t : Option Value) with
    | .null => return none
    | .int n => return some n
    | .float x => if x ≤ 9223372036854775807 then return some (Float64.toInt x) else failure
    | _ => failure) referred n

/-- The entries of a map as it is filled: `merged` holds the keys that mappings brought in must leave
alone, while such are. -/
structure Entries where
  entries : List (Value × Value) := []
  merged : Option (List Value) := none

def Entries.leaves (e : Entries) (key : Value) : Bool :=
  e.merged.any fun keys => keys.any key.sameKey

def Entries.put (e : Entries) (key v : Value) : Entries :=
  { entries := Value.putEntry key v e.entries, merged := e.merged.map (key :: ·) }

def mapType : Text := "map[interface {}]interface {}"

def Entries.toRow (e : Entries) : Row :=
  Fields.ofList (e.entries.filterMap fun (k, v) => match k with
    | .text t => some (t, v)
    | _ => none)

def Entries.toValue (textual : Bool) (e : Entries) : Value :=
  if textual then .row e.toRow
  else .dictionary mapType (e.entries.mergeSort fun a b => Value.keyLe a.1 b.1)

/-- The entries of a mapping: its own ones, and then, if it brings in any, those, which leave alone
what is under its own keys. -/
def allEntries {α : Type} (es : List (Node × Node)) (own : Decoding α) (keys : Decoding (List Value))
    (merge : List Value → α → Decoding α) : Decoding α := do
  if Node.hasRepeats es then failure
  let e ← own
  if es.any (·.1.isMerge) then merge (← keys) e else return e

mutual

def value (referred : Bool) : Node → Decoding Value
  | .scalar tag t => do
    visit referred
    (scalarValue? tag t : Option Value)
  | .sequence items => do
    visit referred
    return .list (← values referred items)
  | .mapping es => do
    visit referred
    let textual := es.all fun e => e.1.isText
    let e ← allEntries es (ownEntries referred textual {} es) (keysOf referred es)
      fun keys e => mergeEntries referred textual { e with merged := some keys } es
    return e.toValue textual
  | .reference _ (some n) => do
    visit referred
    value true n
  | .reference _ none => failure

def values (referred : Bool) : List Node → Decoding (List Value)
  | [] => return []
  | n :: ns => do
    let v ← value referred n
    let vs ← values referred ns
    return v :: vs

def keysOf (referred : Bool) : List (Node × Node) → Decoding (List Value)
  | [] => return []
  | (k, _) :: es => do
    let key ← value referred k
    if !key.isKey then failure
    let keys ← keysOf referred es
    return key :: keys

/-- Sets the entries that a mapping itself has.  One whose key is nothing is left out if keys are
texts. -/
def ownEntries (referred textual : Bool) (e : Entries) : List (Node × Node) → Decoding Entries
  | [] => return e
  | (k, v) :: es => do
    if k.isMerge then ownEntries referred textual e es
    else
      let key : Option Value ←
        if textual then do pure ((← text referred k).map Value.text)
        else do pure (some (← value referred k))
      match key with
      | none => ownEntries referred textual e es
      | some key =>
        if !key.isKey then failure
        if e.leaves key then ownEntries referred textual e es
        else
          let v ← value referred v
          ownEntries referred textual (e.put key v) es

def mergeEntries (referred textual : Bool) (e : Entries) : List (Node × Node) → Decoding Entries
  | [] => return e
  | (k, v) :: es =>
    if k.isMerge then mergeFrom referred textual true e v else mergeEntries referred textual e es

def mergeFrom (referred textual several : Bool) (e : Entries) : Node → Decoding Entries
  | .mapping es => do
    visit referred
    if Node.hasRepeats es then failure
    let own ← ownEntries referred textual e es
    mergeEntries referred textual own es
  | .sequence items => if several then mergeAll referred textual e items else failure
  | .reference _ (some n) => do
    if !n.isMapping then failure
    visit referred
    mergeFrom true textual false e n
  | _ => failure

def mergeAll (referred textual : Bool) (e : Entries) : List Node → Decoding Entries
  | [] => return e
  | n :: ns => do
    let e ← mergeFrom referred textual false e n
    mergeAll referred textual e ns

end

/-- Looks through references to a node that is not nothing. -/
def content {α : Type} (nothing : α) (read : Bool → Node → Decoding α) (referred : Bool) :
    Node → Decoding α
  | .scalar tag t => do
    visit referred
    match ← (scalarValue? tag t : Option Value) with
    | .null => return nothing
    | _ => failure
  | .reference _ (some n) => do
    visit referred
    content nothing read true n
  | n => do
    visit referred
    read referred n

def row : Bool → Node → Decoding (Option Row) := content none fun referred n => do
  match n with
  | .mapping es =>
    let e ← allEntries es (ownEntries referred true {} es) (keysOf referred es)
      fun keys e => mergeEntries referred true { e with merged := some keys } es
    return some e.toRow
  | _ => failure

def list {α : Type} (element : Bool → Node → Decoding (Option α)) : Bool → Node → Decoding (List α) :=
  content [] fun referred n =>
    match n with
    | .sequence items => items.filterMapM (element referred)
    | _ => failure

/-! ### Records -/

structure RecordFields (σ : Type) where
  names : List Text
  set : Text → Bool → Node → σ → Decoding σ

/-- A record as it is filled: `merged` holds the names that mappings brought in must leave alone,
while such are. -/
structure Filling (σ : Type) where
  record : σ
  merged : Option (List Value) := none

namespace RecordFields

variable {σ : Type} (fields : RecordFields σ)

/-- Sets the fields that a mapping itself has, of which some have been set.  One that is not known is
passed, and one that is set twice is a mistake. -/
def fillOwn (referred : Bool) (done : List Text) (f : Filling σ) :
    List (Node × Node) → Decoding (Filling σ)
  | [] => return f
  | (k, v) :: es => do
    if k.isMerge then fillOwn referred done f es
    else
      match ← text referred k with
      | none => fillOwn referred done f es
      | some name =>
        if f.merged.any fun keys => keys.any (Value.text name).sameKey then
          fillOwn referred done f es
        else
          let merged := f.merged.map (Value.text name :: ·)
          if !fields.names.contains name then fillOwn referred done { f with merged } es
          else if done.contains name then failure
          else
            let record ← fields.set name referred v f.record
            fillOwn referred (name :: done) { record, merged } es

mutual

def fillMerged (referred : Bool) (f : Filling σ) : List (Node × Node) → Decoding (Filling σ)
  | [] => return f
  | (k, v) :: es => if k.isMerge then fillFrom referred true f v else fillMerged referred f es

def fillFrom (referred several : Bool) (f : Filling σ) : Node → Decoding (Filling σ)
  | .mapping es => do
    visit referred
    if Node.hasRepeats es then failure
    let f ← fields.fillOwn referred [] f es
    fillMerged referred f es
  | .sequence items => if several then fillAll referred f items else failure
  | .reference _ (some n) => do
    if !n.isMapping then failure
    visit referred
    fillFrom true false f n
  | _ => failure

def fillAll (referred : Bool) (f : Filling σ) : List Node → Decoding (Filling σ)
  | [] => return f
  | n :: ns => do
    let f ← fillFrom referred false f n
    fillAll referred f ns

end

def record (start : σ) : Bool → Node → Decoding (Option σ) := content none fun referred n => do
  match n with
  | .mapping es =>
    let f ← allEntries es (fields.fillOwn referred [] { record := start } es) (keysOf referred es)
      fun keys f => fields.fillMerged referred { f with merged := some keys } es
    return some f.record
  | _ => failure

end RecordFields

/-- What decoding gives for the first document in a text, which is counted itself; without a document
it is the given value. -/
def read? {α : Type} (decode : Node → Decoding α) (otherwise : α) (t : Text) : Option α := do
  match ← Node.read? t with
  | none => return otherwise
  | some n => (do
      visit false
      decode n : Decoding α).run' {}

end Decoding

end Dataflow.Yaml
