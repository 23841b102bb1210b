import Dataflow.Decimal.Reader
import Dataflow.Text.Scalar

/-!
# Durations

A duration is a number of nanoseconds.  It is written with units, as in `1h0m2.5s` or `15ms`, and read
from such a text.
-/

namespace Dataflow.Duration

/-- The units with their lengths in nanoseconds; a millionth has two spellings of its sign. -/
def units : List (Text × Nat) :=
  [("ns", 1), ("us", 1000), ("µs", 1000), ("μs", 1000), ("ms", 1000000),
   ("s", 1000000000), ("m", 60000000000), ("h", 3600000000000)]

def bound : Nat := Nat.pow 2 63

def whole? (ds : List UInt8) : Option Nat :=
  let n := ds.foldl (fun n b => n * 10 + (b.toNat - 48)) 0
  if n ≤ bound then some n else none

def fraction (ds : List UInt8) : Nat × Nat :=
  let (n, scale, _) := ds.foldl (fun (n, scale, full) b =>
    let next := n * 10 + (b.toNat - 48)
    if full || (bound - 1) / 10 < n || bound < next then (n, scale, true)
    else (next, scale * 10, false)) (0, 1, false)
  (n, scale)

def partOf (unit : Nat) (f : Nat × Nat) : Nat :=
  let x := Float64.ofInt f.1 * (Float64.ofInt unit / Float64.ofInt f.2)
  ((Float64.truncate? x).getD 0).toNat

/-- The sum of amounts with units; every amount has a digit. -/
def sum? : Nat → Nat → List UInt8 → Option Nat
  | _, total, [] => some total
  | 0, _, _ => none
  | fuel + 1, total, bs => do
    let ds := bs.takeWhile Byte.isDigit
    let rest := bs.dropWhile Byte.isDigit
    let n ← whole? ds
    let (fs, rest) := match rest with
      | 46 :: r => (r.takeWhile Byte.isDigit, r.dropWhile Byte.isDigit)
      | r => ([], r)
    if ds.isEmpty && fs.isEmpty then none
    let isUnit (b : UInt8) : Bool := !(b = byte '.' || Byte.isDigit b)
    let name : Text := ⟨rest.takeWhile isUnit⟩
    let (_, unit) ← units.find? (·.1 = name)
    if bound / unit < n then none
    let amount := n * unit + partOf unit (fraction fs)
    if bound < amount || bound < total + amount then none
    sum? fuel (total + amount) (rest.dropWhile isUnit)

/-- Reads a duration; zero needs no unit. -/
def parse? (t : Text) : Option Int :=
  let (negative, bs) := NumberReader.unsigned t
  if bs = [byte '0'] then some 0
  else if bs.isEmpty then none
  else do
    let n ← sum? bs.length 0 bs
    if negative then return -(n : Int)
    else if n < bound then return n
    else none

def scaled (places n : Nat) : Text :=
  let unit := Nat.pow 10 places
  let rest := n % unit
  let whole := Text.ofNat (n / unit)
  if rest = 0 then whole
  else whole ++ "." ++ (Text.padZeros places (Text.ofNat rest)).dropEndWhile (· = byte '0')

def magnitude (n : Nat) : Text :=
  if n = 0 then "0s"
  else if n < 1000 then Text.ofNat n ++ "ns"
  else if n < 1000000 then scaled 3 n ++ "µs"
  else if n < 1000000000 then scaled 6 n ++ "ms"
  else
    let minutes := n / 60000000000
    let seconds := scaled 9 (n % 60000000000) ++ "s"
    if minutes = 0 then seconds
    else if minutes < 60 then Text.ofNat minutes ++ "m" ++ seconds
    else Text.ofNat (minutes / 60) ++ "h" ++ Text.ofNat (minutes % 60) ++ "m" ++ seconds

def text (nanos : Int) : Text :=
  if nanos < 0 then "-" ++ magnitude nanos.natAbs else magnitude nanos.natAbs

/-- A duration as a whole number of a unit; a half goes away from zero. -/
def roundTo (unit : Nat) (nanos : Int) : Int :=
  let n : Int := (nanos.natAbs + unit / 2) / unit * unit
  if nanos < 0 then -n else n

end Dataflow.Duration
