import Dataflow.Moment.Text
import Dataflow.Csv.Records
import Dataflow.Frame.Basic

/-!
# Tables in comma-separated text

The first record of a table names its columns, and the second fixes the type of each.  Empty cells
are empty whatever the type; any other cell has to be of the type of its column.
-/

namespace Dataflow.Csv

inductive CellType where
  | int
  | bool
  | date
  | time
  | timestamp
  | instant
  | float
  | text
deriving DecidableEq

def numberFault (reader : Text) (t : Text) (outOfRange : Bool) : Failure :=
  .plain ("strconv." ++ reader ++ ": parsing " ++ t.quoted
    ++ (if outOfRange then ": value out of range" else ": invalid syntax"))

def readInt (t : Text) : Except Failure Int64 :=
  match t.toInt? with
  | none => .error (numberFault "ParseInt" t false)
  | some n =>
    if Int64.minValue.toInt ≤ n ∧ n ≤ Int64.maxValue.toInt then .ok (Int64.ofInt n)
    else .error (numberFault "ParseInt" t true)

def readBool? (t : Text) : Option Bool :=
  if (["1", "t", "T", "true", "TRUE", "True"] : List Text).contains t then some true
  else if (["0", "f", "F", "false", "FALSE", "False"] : List Text).contains t then some false
  else none

def readNumber (t : Text) : Except Failure Float :=
  (readFloat t).mapError fun f => numberFault "ParseFloat" t (f = .outOfRange)

def readMoment (m : Option Moment) (write : Moment → Text) (fault : Failure) : Except Failure Text :=
  match m with
  | some m => .ok (write m)
  | none => .error fault

namespace CellType

def all : List CellType := [int, bool, date, time, timestamp, instant, float, text]

def readText (c : CellType) (t : Text) : Except Failure Text :=
  match c with
  | date => readMoment (Moment.date? t) Moment.dateText (.plain (Moment.dateFault t))
  | time => readMoment (Moment.time? t) Moment.timeText (.reader "cannot parse time")
  | timestamp => readMoment (Moment.timestamp? false t) Moment.text (.reader "invalid timestamp")
  | instant => readMoment (Moment.timestamp? true t) Moment.text (.reader "invalid timestamp")
  | _ => .ok t

def accepts (c : CellType) (t : Text) : Bool :=
  match c with
  | int => (readInt t).isOk
  | bool => (readBool? t).isSome
  | float => (readNumber t).isOk
  | c => (c.readText t).isOk

/-- The first type a cell is of; an empty cell counts as text. -/
def ofCell (t : Text) : CellType :=
  if t.isEmpty then text else (all.find? (·.accepts t)).getD text

def push (c : CellType) (column : Column) (t : Text) : Except Failure Column :=
  let cell {α : Type} (read : Except Failure α) : Except Failure (Option α) :=
    if t.isEmpty then .ok none else read.map some
  match c, column with
  | int, .int xs => return .int (xs ++ [← cell (readInt t)])
  | bool, .bool xs => return .bool (xs ++ [← cell (match readBool? t with
    | some b => .ok b
    | none => .error (.reader ("unrecognized boolean: " ++ t)))])
  | float, .float xs => return .float (xs ++ [← cell (readNumber t)])
  | c, .text xs => return .text (xs ++ [← cell (c.readText t)])
  | _, column => .ok column

/-- The column that holds cells of the type; moments are kept as text. -/
def column : CellType → Column
  | int => .int []
  | bool => .bool []
  | float => .float []
  | _ => .text []

end CellType

def pushRecord (types : List CellType) (columns : List Column) (record : List Text) :
    Except Failure (List Column) :=
  ((types.zip columns).zip record).mapM fun ((c, column), t) => c.push column t

def recordFailure (f : Fault) : Failure := .reader f.text

def checkRecord (width : Nat) (r : Except Fault (List Text)) : Except Failure (List Text) :=
  match r with
  | .error f => .error (recordFailure f)
  | .ok fields => if fields.length = width then .ok fields else .error (recordFailure .fieldCount)

/-- The table of a text.  Read as one batch, all records are read before any cell, and there must be
one; read in batches of more than one record, there must be one too. -/
def table (t : Text) (chunk : Int) : Outcome Frame :=
  match records t with
  | [] => Outcome.fail (.reader "could not read header from file: EOF")
  | .error f :: _ => Outcome.fail (recordFailure f)
  | .ok header :: rest => do
    let width := header.length
    if chunk ≤ 0 then
      let _ ← Outcome.ofExcept (rest.mapM (checkRecord width))
    match rest with
    | [] => if chunk = 1 then return {} else Outcome.crash
    | first :: _ =>
      let first ← Outcome.ofExcept (checkRecord width first)
      let types := first.map CellType.ofCell
      let columns ← Outcome.ofExcept (rest.foldlM (fun columns r => do
        pushRecord types columns (← checkRecord width r)) (types.map CellType.column))
      return { columns := header.zip columns, rows := rest.length }

/-- A frame as text: a line of names and one for each row; empty cells are empty. -/
def ofFrame (f : Frame) : Text :=
  let cells := f.columns.map fun (_, c) => c.texts
  Text.concat (writeRecord f.names
    :: (List.range f.rows).map fun i => writeRecord (cells.map fun col => ((col[i]?).join).getD ""))

end Dataflow.Csv
