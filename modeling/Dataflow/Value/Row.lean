import Dataflow.Value.Basic
import Dataflow.Decimal.Reader
import Dataflow.Text.Scalar

/-!
# Values as numbers, and rows

Numbers of every type, truth values and texts that spell a number convert to a double.  A row is one
record of a table: named values, where a missing or null value counts as empty.
-/

namespace Dataflow.Value

def toFloat : Value → Float × Bool
  | float x => (x, true)
  | single x => (x.toFloat, true)
  | int n => (Float64.ofInt n.toInt, true)
  | sized _ n => (Float64.ofInt n, true)
  | numeral t =>
    match readFloat t with
    | .ok x => (x, true)
    | .error .outOfRange =>
      (if t.startsWith "-" then Float64.negInfinity else Float64.infinity, false)
    | .error .malformed => (0, false)
  | text t =>
    match readFloat t.trim with
    | .ok x => if x.isNaN then (0, false) else (x, true)
    | .error _ => (0, false)
  | bool b => (if b then 1 else 0, true)
  | _ => (0, false)

def toFloat? (v : Value) : Option Float :=
  match v.toFloat with
  | (x, true) => some x
  | (_, false) => none

/-- The integer a value stands for; fractions are dropped. -/
def toInt? : Value → Option Int64
  | int n => some n
  | v => v.toFloat?.map Float64.toInt

def ofCell (t : Text) : Value :=
  match readFloat t.trim with
  | .ok x => float x
  | .error _ => text t

end Dataflow.Value

namespace Dataflow.Row

def float? (r : Row) (key : Text) : Option Float :=
  match Fields.get? r key with
  | none | some .null => none
  | some v => v.toFloat?.filter fun x => !x.isNaN

/-- A number as a cell: not-a-number is empty. -/
def cell (x : Float) : Value := if x.isNaN then .null else .float x

/-- A column as numbers, with not-a-number for the empty cells. -/
def column (rows : List Row) (key : Text) : List Float :=
  rows.map fun r => (float? r key).getD Float64.nan

def columns (rows : List Row) : List Text :=
  rows.foldl (fun seen r => seen ++ Text.sort ((r.map Prod.fst).filter (!seen.contains ·))) []

/-- The `n`-th row of the dataset that stands in for a source without data: close `n + 1`, high and
low a tenth above and below, volume one hundred. -/
def sample (n : Nat) : Row :=
  let c := Float64.ofInt (n + 1)
  [("close", .float c), ("high", .float (c + 0.1)), ("low", .float (c - 0.1)),
   ("volume", .float 100)]

def samples : List Row := (List.range 15).map sample

end Dataflow.Row
