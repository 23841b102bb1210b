import Dataflow.Decimal.Shortest
import Dataflow.Text.Basic

/-!
# Rounded digits

A number is written with a chosen number of places, a chosen number of digits, or as many digits as
it takes to read it back.  `Rounded` holds decimal digits after rounding, which is to the nearest,
with a half to the even neighbour, and exact on the number's fraction.  The forms are the fixed
point, the exponent, the general one that chooses between these two, and two on the binary parts.
-/

namespace Dataflow

/-- The number `0.d₁d₂… · 10 ^ point`; the digits do not end in zeros, and zero has none. -/
structure Rounded where
  digits : Text
  point : Int
deriving DecidableEq

namespace Rounded

def ofScaled (n : Nat) (places : Int) : Rounded :=
  if n = 0 then ⟨"", 0⟩
  else
    let t := Text.ofNat n
    ⟨t.dropEndWhile (· == byte '0'), t.length - places⟩

def ofDecimal (d : Decimal) : Rounded := ofScaled d.digits (-d.exponent)

def fraction (b : Binary) : Nat × Nat :=
  if 0 ≤ b.exponent then (b.mantissa * Nat.pow 2 b.exponent.toNat, 1)
  else (b.mantissa, Nat.pow 2 (-b.exponent).toNat)

/-- The number `k` with `10 ^ (k - 1) ≤ num / den < 10 ^ k`, for a positive fraction. -/
def magnitude (num den : Nat) : Int :=
  if den ≤ num then (Text.ofNat (num / den)).length
  else 1 - ((Text.ofNat ((den - 1) / num)).length : Int)

def toPlaces (b : Binary) (places : Nat) : Rounded :=
  let (num, den) := fraction b
  ofScaled (Binary.roundDiv (num * Nat.pow 10 places) den) places

def toDigits (b : Binary) (count : Nat) : Rounded :=
  let (num, den) := fraction b
  if num = 0 then ⟨"", 0⟩
  else
    let places := (count : Int) - magnitude num den
    ofScaled
      (if 0 ≤ places then Binary.roundDiv (num * Nat.pow 10 places.toNat) den
        else Binary.roundDiv num (den * Nat.pow 10 (-places).toNat))
      places

def afterPoint (places : Nat) (digits : Text) : Text :=
  if places = 0 then ""
  else
    let ds := digits.take places
    "." ++ ds ++ Text.replicate (places - ds.length) "0"

def fixed (r : Rounded) (places : Nat) : Text :=
  if 0 < r.point then
    let n := r.point.toNat
    let whole := r.digits.take n
    whole ++ Text.replicate (n - whole.length) "0" ++ afterPoint places (r.digits.drop n)
  else
    let zeros := min places (-r.point).toNat
    "0" ++ afterPoint places (Text.replicate zeros "0" ++ r.digits)

/-- A decimal or binary exponent with its sign and at least two digits. -/
def exponentText (e : Int) : Text :=
  (if e < 0 then "-" else "+") ++ Text.padZeros 2 (Text.ofNat e.natAbs)

def exponential (r : Rounded) (places : Nat) : Text :=
  if r.digits.isEmpty then "0" ++ afterPoint places "" ++ "e+00"
  else r.digits.take 1 ++ afterPoint places (r.digits.drop 1) ++ "e" ++ exponentText (r.point - 1)

/-- The fixed point unless the exponent is below `-4` or reaches the precision; without a precision
all digits are written, and six is the limit. -/
def general (r : Rounded) (precision : Option Nat) : Text :=
  let n := r.digits.length
  let count := precision.getD n
  let limit : Nat := match precision with
    | none => 6
    | some k => if n < k ∧ r.point ≤ n then n else k
  if r.point - 1 < -4 ∨ limit ≤ r.point - 1 then r.exponential (min count n - 1)
  else r.fixed ((if r.point < count then n else count) - r.point).toNat

end Rounded

inductive NumberForm where
  | fixed
  | exponent
  | general
  | hexadecimal
  | binary
deriving DecidableEq

namespace Binary

def hexadecimal (b : Binary) (precision : Option Nat) : Text :=
  if b.mantissa = 0 then "0x0" ++ Rounded.afterPoint (precision.getD 0) "" ++ "p+00"
  else
    -- the leading one moves to bit 60, in front of fifteen hexadecimal digits
    let e := b.exponent + b.mantissa.log2
    let m := b.mantissa * Nat.pow 2 (60 - b.mantissa.log2)
    let m := match precision with
      | some k => if k < 15 then roundDiv m (Nat.pow 16 (15 - k)) * Nat.pow 16 (15 - k) else m
      | none => m
    let (m, e) := if Nat.pow 2 61 ≤ m then (m / 2, e + 1) else (m, e)
    let ds := Text.ofHex 15 (m % Nat.pow 2 60)
    let ds := if precision.isNone then ds.dropEndWhile (· == byte '0') else ds
    "0x1" ++ Rounded.afterPoint (precision.getD ds.length) ds ++ "p" ++ Rounded.exponentText e

def parts (b : Binary) : Text :=
  Text.ofNat b.mantissa ++ "p" ++ (if b.exponent < 0 then "" else "+") ++ Text.ofInt b.exponent

/-- The absolute value of a number in a form; without a precision it has the digits that read
back. -/
def inForm (f : BinaryFormat) (b : Binary) (form : NumberForm) (precision : Option Nat) : Text :=
  let least := Rounded.ofDecimal (Decimal.shortest f b)
  match form, precision with
  | .fixed, none => least.fixed (least.digits.length - least.point).toNat
  | .fixed, some k => (Rounded.toPlaces b k).fixed k
  | .exponent, none => least.exponential (least.digits.length - 1)
  | .exponent, some k => (Rounded.toDigits b (k + 1)).exponential k
  | .general, none => least.general none
  | .general, some k => (Rounded.toDigits b (max k 1)).general (some (max k 1))
  | .hexadecimal, p => b.hexadecimal p
  | .binary, _ => b.parts

end Binary

end Dataflow
