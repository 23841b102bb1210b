import Dataflow.Value.Basic

/-!
# Tables

A document is a table of items: values, tables, and lists of tables.  A table is defined once: by a
header, or by dotted keys as long as the table around it is being written.  A header may also name a
table inside others that have no header yet, or inside the last one of a list of tables.
-/

namespace Dataflow.Toml

inductive Origin where
  /-- By the header of a table inside it. -/
  | implied
  /-- By a dotted key of the table that is being written. -/
  | dotted
  /-- By its own header, or by a dotted key of a table that is finished. -/
  | settled
deriving DecidableEq

inductive Item where
  | value (v : Value)
  | table (origin : Origin) (items : List (Text × Item))
  /-- A list of tables: the finished ones and what the last one holds. -/
  | tables (before : List Value) (items : List (Text × Item))

abbrev Items := List (Text × Item)

mutual

def Item.toValue : Item → Value
  | .value v => v
  | .table _ items => .row (Fields.ofList (toFields items))
  | .tables before items => .list (before ++ [.row (Fields.ofList (toFields items))])

def toFields : List (Text × Item) → List (Text × Value)
  | [] => []
  | (k, i) :: items => (k, i.toValue) :: toFields items

end

def toRow (items : Items) : Row := Fields.ofList (toFields items)

mutual

def Item.settle : Item → Item
  | .value v => .value v
  | .table .dotted items => .table .settled (settleAll items)
  | .table o items => .table o (settleAll items)
  | .tables before items => .tables before (settleAll items)

def settleAll : List (Text × Item) → List (Text × Item)
  | [] => []
  | (k, i) :: items => (k, i.settle) :: settleAll items

end

namespace Items

def put (k : Text) (i : Item) : Items → Items
  | [] => [(k, i)]
  | (k', j) :: items => if k' = k then (k, i) :: items else (k', j) :: put k i items

/-- Gives a value to a dotted key.  A name has one value, and only tables by dotted keys or without a
header of their own can be extended. -/
def assign? : List Text → Value → Items → Option Items
  | [], _, _ => none
  | [k], v, items => if Fields.has items k then none else some (put k (.value v) items)
  | k :: ks, v, items =>
    match Fields.get? items k with
    | none => (assign? ks v []).map fun inner => put k (.table .dotted inner) items
    | some (.table .settled _) => none
    | some (.table o inner) =>
      (assign? ks v inner).map fun inner => put k (.table o inner) items
    | some _ => none

def within? (change : Items → Option Items) : List Text → Items → Option Items
  | [], items => change items
  | k :: ks, items =>
    match Fields.get? items k with
    | none => (within? change ks []).map fun inner => put k (.table .implied inner) items
    | some (.table o inner) =>
      (within? change ks inner).map fun inner => put k (.table o inner) items
    | some (.tables before inner) =>
      (within? change ks inner).map fun inner => put k (.tables before inner) items
    | some (.value _) => none

def header? (k : Text) (items : Items) : Option Items :=
  match Fields.get? items k with
  | none => some (put k (.table .settled []) items)
  | some (.table .settled _) => none
  | some (.table _ inner) => some (put k (.table .settled inner) items)
  | some _ => none

def element? (k : Text) (items : Items) : Option Items :=
  match Fields.get? items k with
  | none => some (put k (.tables [] []) items)
  | some (.tables before inner) => some (put k (.tables (before ++ [.row (toRow inner)]) []) items)
  | some _ => none

end Items

end Dataflow.Toml
