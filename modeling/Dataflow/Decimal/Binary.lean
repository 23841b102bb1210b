/-!
# Floating-point numbers as exact fractions

A finite number is `± m · 2 ^ e`.  `Binary.ofFloat` reads `m` and `e` off the bits, and `toFloat`
is the number nearest to a fraction, with ties to the even mantissa.  All arithmetic is on natural
numbers.
-/

namespace Dataflow

/-- A format of binary floating-point numbers: `width` mantissa bits with the hidden one, and the
exponent of the least positive number. -/
structure BinaryFormat where
  width : Nat
  least : Int
deriving DecidableEq

namespace BinaryFormat

def double : BinaryFormat := ⟨53, -1074⟩

def single : BinaryFormat := ⟨24, -149⟩

end BinaryFormat

structure Binary where
  negative : Bool
  mantissa : Nat
  exponent : Int
deriving DecidableEq

namespace Binary

def ofFloat (x : Float) : Binary :=
  let bits := x.toBits.toNat
  let field : Nat := bits / Nat.pow 2 52 % 2048
  let fraction := bits % Nat.pow 2 52
  { negative := Nat.pow 2 63 ≤ bits
    mantissa := if field = 0 then fraction else Nat.pow 2 52 + fraction
    exponent := (if field = 0 then 1 else (field : Int)) - 1075 }

def ofFloat32 (x : Float32) : Binary :=
  let bits := x.toBits.toNat
  let field : Nat := bits / Nat.pow 2 23 % 256
  let fraction := bits % Nat.pow 2 23
  { negative := Nat.pow 2 31 ≤ bits
    mantissa := if field = 0 then fraction else Nat.pow 2 23 + fraction
    exponent := (if field = 0 then 1 else (field : Int)) - 150 }

def truncate (b : Binary) : Int :=
  let whole := if 0 ≤ b.exponent then b.mantissa * Nat.pow 2 b.exponent.toNat
    else b.mantissa / Nat.pow 2 (-b.exponent).toNat
  if b.negative then -(whole : Int) else whole

/-- `num / den` to the nearest integer, with a half to the even neighbour. -/
def roundDiv (num den : Nat) : Nat :=
  let q := num / den
  let r := num % den
  if 2 * r < den then q else if den < 2 * r then q + 1 else q + q % 2

def toFloat (negative : Bool) (num den : Nat) : Float :=
  let sign : Nat := if negative then Nat.pow 2 63 else 0
  if num = 0 then Float.ofBits sign.toUInt64
  else
    -- `num / den` lies in `[2 ^ (k - 1), 2 ^ (k + 1))`
    let k : Int := (num.log2 : Int) - den.log2
    -- try the finer unit first: rounding may not need the wider one
    let scaled (e : Int) : Nat :=
      if 0 ≤ e then roundDiv num (den * Nat.pow 2 e.toNat)
      else roundDiv (num * Nat.pow 2 (-e).toNat) den
    let fine := max (-1074) (k - 53)
    let m := scaled fine
    let (m, e) := if m ≤ Nat.pow 2 53 then (m, fine)
      else
        let coarse := max (-1074) (k - 52)
        (scaled coarse, coarse)
    -- a mantissa rounded up to a power of two has the next exponent
    let bits : Nat := (e + 1074).toNat * Nat.pow 2 52 + m
    if 2047 * Nat.pow 2 52 ≤ bits then Float.ofBits (sign + 2047 * Nat.pow 2 52).toUInt64
    else Float.ofBits (sign + bits).toUInt64

end Binary

def Integer64.ofInt? (n : Int) : Option Int64 :=
  if Int64.minValue.toInt ≤ n ∧ n ≤ Int64.maxValue.toInt then some (Int64.ofInt n) else none

namespace Float64

def truncate? (x : Float) : Option Int :=
  if x.isFinite then some (Binary.ofFloat x).truncate else none

/-- The 64-bit integer of a truncated number; the least one where it does not fit. -/
def toInt (x : Float) : Int64 :=
  ((truncate? x).bind Integer64.ofInt?).getD Int64.minValue

def infinity : Float := Float.ofBits 0x7FF0000000000000

def negInfinity : Float := Float.ofBits 0xFFF0000000000000

def nan : Float := Float.ofBits 0x7FF8000000000000

def ofInt (n : Int) : Float := Binary.toFloat (n < 0) n.natAbs 1

def abs (x : Float) : Float := Float.ofBits (x.toBits % 0x8000000000000000)

def isNegative (x : Float) : Bool := 0x8000000000000000 ≤ x.toBits

end Float64

end Dataflow
