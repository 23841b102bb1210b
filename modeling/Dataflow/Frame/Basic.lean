import Dataflow.Failure
import Dataflow.Value.Row

/-!
# Frames

A frame is a table by columns: named columns, each of one type, with empty cells.  Rows become a frame
with a type for each column that fits all of its cells: numbers, truth values, or text where the
cells differ in kind.
-/

namespace Dataflow

inductive ColumnType where
  | float
  | int
  | bool
  | text
deriving DecidableEq

def ColumnType.name : ColumnType → Text
  | float => "float64"
  | int => "int64"
  | bool => "bool"
  | text => "utf8"

/-- A column: cells of one type, some of them empty. -/
inductive Column where
  | float (xs : List (Option Float))
  | int (xs : List (Option Int64))
  | bool (xs : List (Option Bool))
  | text (xs : List (Option Text))

namespace Column

def type : Column → ColumnType
  | float _ => .float
  | int _ => .int
  | bool _ => .bool
  | text _ => .text

def length : Column → Nat
  | float xs => xs.length
  | int xs => xs.length
  | bool xs => xs.length
  | text xs => xs.length

def nulls : Column → Nat
  | float xs => xs.countP Option.isNone
  | int xs => xs.countP Option.isNone
  | bool xs => xs.countP Option.isNone
  | text xs => xs.countP Option.isNone

def empty (t : ColumnType) (n : Nat) : Column :=
  match t with
  | .float => float (List.replicate n none)
  | .int => int (List.replicate n none)
  | .bool => bool (List.replicate n none)
  | .text => text (List.replicate n none)

def floatCell (x : Float) : Option Float := if x.isNaN then none else some x

def ofFloats (xs : List Float) : Column := float (xs.map floatCell)

/-- The cells as values of a row: integers as numbers, not-a-number as empty. -/
def values : Column → List Value
  | float xs => xs.map fun x => Value.ofOption (x.map Row.cell)
  | int xs => xs.map fun x => Value.ofOption (x.map fun n => .float (Float64.ofInt n.toInt))
  | bool xs => xs.map fun x => Value.ofOption (x.map .bool)
  | text xs => xs.map fun x => Value.ofOption (x.map .text)

/-- The cell of a row; past the end it is empty. -/
def value (c : Column) (i : Nat) : Value := c.values.getD i .null

def texts : Column → List (Option Text)
  | float xs => xs.map (Option.map NumberStyle.general.float)
  | int xs => xs.map (Option.map fun n => Text.ofInt n.toInt)
  | bool xs => xs.map (Option.map fun b => if b then "true" else "false")
  | text xs => xs

/-- The numbers of the cells; empty where a cell has none. -/
def floats (c : Column) : List (Option Float) :=
  c.values.map fun v => match v with
    | .float x => some x
    | _ => none

/-- The column with cells of another type: numbers of what has a number, or texts. -/
def cast (c : Column) (t : ColumnType) : Column :=
  if c.type = t then c
  else if t = .float then float c.floats
  else text c.texts

def take (n : Nat) : Column → Column
  | float xs => float (xs.take n)
  | int xs => int (xs.take n)
  | bool xs => bool (xs.take n)
  | text xs => text (xs.take n)

/-- The cells at the given places, in that order; past the end they are empty. -/
def pick (is : List Nat) : Column → Column
  | float xs => float (is.map fun i => (xs[i]?).join)
  | int xs => int (is.map fun i => (xs[i]?).join)
  | bool xs => bool (is.map fun i => (xs[i]?).join)
  | text xs => text (is.map fun i => (xs[i]?).join)

def concat (t : ColumnType) (cs : List Column) : Column :=
  match t with
  | .float => float (cs.flatMap fun c => match c with | float xs => xs | _ => [])
  | .int => int (cs.flatMap fun c => match c with | int xs => xs | _ => [])
  | .bool => bool (cs.flatMap fun c => match c with | bool xs => xs | _ => [])
  | .text => text (cs.flatMap fun c => match c with | text xs => xs | _ => [])

end Column

def ColumnType.unify (a b : ColumnType) : ColumnType :=
  if a = b then a
  else if (a = .float ∨ a = .int) ∧ (b = .float ∨ b = .int) then .float
  else .text

/-- The type a cell asks for; an empty cell asks for none. -/
def Value.columnType? : Value → Option ColumnType
  | .null => none
  | .float _ | .single _ | .int _ | .sized _ _ => some .float
  | .bool _ => some .bool
  | _ => some .text

def Value.bool? : Value → Option Bool
  | .bool b => some b
  | _ => none

structure Frame where
  columns : List (Text × Column) := []
  rows : Nat := 0

namespace Frame

/-- The type of a column of rows: that of its cells if they agree, text if not, and numbers if all
are empty. -/
def columnType (rows : List Row) (name : Text) : ColumnType :=
  let kinds := rows.filterMap fun r => (Fields.get? r name).bind Value.columnType?
  match kinds with
  | [] => .float
  | k :: ks => if ks.all (· = k) then k else .text

def schema (rows : List Row) : List (Text × ColumnType) :=
  (Row.columns rows).map fun name => (name, columnType rows name)

def columnOf (rows : List Row) (name : Text) : ColumnType → Outcome Column
  | .bool => return .bool (rows.map fun r => (Fields.get? r name).bind Value.bool?)
  | .text => do
    let cells ← rows.mapM fun r => match (Fields.get? r name).getD .null with
      | .null => return none
      | v => return some (← Outcome.ofOption v.toText?)
    return .text cells
  | _ => return .float (rows.map (Row.float? · name))

/-- The frame of rows. Rows without columns do not count. -/
def ofRows (rows : List Row) : Outcome Frame := do
  let columns ← (schema rows).mapM fun (name, t) => do return (name, ← columnOf rows name t)
  return { columns, rows := if columns.isEmpty then 0 else rows.length }

def names (f : Frame) : List Text := f.columns.map Prod.fst

/-- The column with a name; the first, if there are several. -/
def column? (f : Frame) (name : Text) : Option Column :=
  (f.columns.find? (·.1 = name)).map Prod.snd

def new (names : List Text) (columns : List Column) : Except Failure Frame :=
  if names.length ≠ columns.length then
    .error (Failure.invalidInput "columns" "names and columns differ in count")
  else
    let n := (columns.head?.map Column.length).getD 0
    match (names.zip columns).find? (·.2.length ≠ n) with
    | some (name, c) => .error (Failure.invalidInput "columns"
        ("column " ++ name ++ " has " ++ Text.ofNat c.length ++ " rows, want " ++ Text.ofNat n))
    | none => .ok { columns := names.zip columns, rows := n }

/-- The numbers of a column, one a row; empty where the column is missing or has no number. -/
def floats (f : Frame) (name : Text) : List (Option Float) :=
  match f.column? name with
  | none => List.replicate f.rows none
  | some c => (List.range f.rows).map fun i => (c.floats[i]?).join

/-- The numbers of a column with not-a-number for the empty cells. -/
def series (f : Frame) (name : Text) : List Float :=
  (f.floats name).map (·.getD Float64.nan)

def row (f : Frame) (i : Nat) : Row :=
  Fields.ofList (f.columns.map fun (name, c) => (name, c.value i))

def toRows (f : Frame) : List Row := (List.range f.rows).map f.row

/-- The frame with a column added, or replaced in place. A first column sets the number of rows. -/
def withColumn (f : Frame) (name : Text) (c : Column) : Frame :=
  match f.columns.findIdx? (·.1 = name) with
  | some i => { f with columns := f.columns.set i (name, c) }
  | none =>
    { columns := f.columns ++ [(name, c)],
      rows := if f.columns.isEmpty then c.length else f.rows }

def head (f : Frame) (n : Nat) : Frame :=
  if f.rows ≤ n then f
  else { columns := f.columns.map fun (name, c) => (name, c.take n), rows := n }

def pick (f : Frame) (is : List Nat) : Frame :=
  { columns := f.columns.map fun (name, c) => (name, c.pick is), rows := is.length }

/-- The first rows; a negative number of rows is a fault. -/
def head? (f : Frame) (n : Int) : Outcome Frame :=
  if n < 0 then Outcome.crash else return f.head n.toNat

/-- The rows at the given places; a place before the first row is a fault where there are
columns. -/
def pick? (f : Frame) (is : List Int) : Outcome Frame :=
  if is.any (· < 0) && !f.columns.isEmpty then Outcome.crash else return f.pick (is.map Int.toNat)

def addType (types : List (Text × ColumnType)) (name : Text) (t : ColumnType) :
    List (Text × ColumnType) :=
  match types.findIdx? (·.1 = name) with
  | none => types ++ [(name, t)]
  | some i => types.modify i fun (name, u) => (name, u.unify t)

/-- The columns of several frames in the order of first use, with a type that holds the cells of
all. -/
def unionTypes (frames : List Frame) : List (Text × ColumnType) :=
  (frames.flatMap Frame.columns).foldl (fun ts (name, c) => addType ts name c.type) []

/-- Frames one under another, over all of their columns. Cells of columns that a frame lacks are
empty. -/
def concat (frames : List Frame) : Frame :=
  { columns := (unionTypes frames).map fun (name, t) =>
      (name, Column.concat t (frames.map fun f => match f.column? name with
        | none => Column.empty t f.rows
        | some c => c.cast t))
    rows := frames.foldl (fun n f => n + f.rows) 0 }

/-- Two frames side by side, cut to the shorter. A name of the right frame that the left one has
gets a mark. -/
def beside (left right : Frame) : Frame :=
  let n := min left.rows right.rows
  let l := left.head n
  let r := right.head n
  { columns := l.columns ++ r.columns.map fun (name, c) =>
      (if (l.column? name).isSome then name ++ "_right" else name, c)
    rows := n }

end Frame

end Dataflow
