import Dataflow.Decimal.Shortest
import Dataflow.Text.Basic

/-!
# How numbers are written

A number is written with its shortest digits, positionally while its decimal exponent lies in a
range and in exponent form outside.  `NumberStyle` holds these decisions; its values are the two ways
in use: one for messages and cells, one for documents.
-/

namespace Dataflow

structure NumberStyle where
  /-- The least decimal exponent written positionally. -/
  lowest : Int
  /-- The least decimal exponent above the positional range. -/
  limit : Int
  exponentDigits : Nat
deriving DecidableEq

namespace NumberStyle

/-- Messages and cells: positional from `0.0001` to below a million. -/
def general : NumberStyle := ⟨-4, 6, 2⟩

/-- Documents: positional from `0.000001` to below `10 ^ 21`, and no leading zero in an exponent. -/
def document : NumberStyle := ⟨-6, 21, 1⟩

/-- The digits `ds` with the point after `n` of them, filled up with zeros. -/
def positional (ds : Text) (n : Int) : Text :=
  if n ≤ 0 then "0." ++ Text.replicate (-n).toNat "0" ++ ds
  else if (ds.length : Int) ≤ n then ds ++ Text.replicate (n.toNat - ds.length) "0"
  else ds.take n.toNat ++ "." ++ ds.drop n.toNat

def scientific (width : Nat) (ds : Text) (e : Int) : Text :=
  let mantissa := if ds.length = 1 then ds else ds.take 1 ++ "." ++ ds.drop 1
  mantissa ++ "e" ++ (if e < 0 then "-" else "+") ++ Text.padZeros width (Text.ofNat e.natAbs)

def decimal (s : NumberStyle) (d : Decimal) : Text :=
  if d.digits = 0 then "0"
  else
    let ds := Text.ofNat d.digits
    let e := d.exponent + ds.length - 1
    if e < s.lowest ∨ s.limit ≤ e then scientific s.exponentDigits ds e else positional ds (e + 1)

/-- The text of a finite number; a negative zero keeps its sign. -/
def binary (s : NumberStyle) (f : BinaryFormat) (b : Binary) : Text :=
  let t := s.decimal (Decimal.shortest f b)
  if b.negative then "-" ++ t else t

def float (s : NumberStyle) (x : Float) : Text :=
  if x.isNaN then "NaN"
  else if x.isInf then (if Float64.isNegative x then "-Inf" else "+Inf")
  else s.binary .double (Binary.ofFloat x)

def float32 (s : NumberStyle) (x : Float32) : Text :=
  if x.isNaN then "NaN"
  else if x.isInf then (if x.toBits < 0x80000000 then "+Inf" else "-Inf")
  else s.binary .single (Binary.ofFloat32 x)

end NumberStyle

end Dataflow
