import Dataflow.Decimal.Binary

/-!
# The numbers of series

Series are computed over any type with the operations of `Arithmetic`.  One of its numbers is *null*
and marks empty cells.  Nothing is assumed of the operations, so what holds of a series over all of
them holds of every way to compute.  Doubles are one of them, with not-a-number as null.
-/

namespace Dataflow

/-- The operations series are computed with. -/
class Arithmetic (α : Type) extends Add α, Sub α, Mul α, Div α, Neg α where
  null : α
  isNull : α → Bool
  ofInt : Int → α
  sqrt : α → α
  abs : α → α
  min : α → α → α
  max : α → α → α
  /-- Strictly below; never true of null. -/
  lt : α → α → Bool
  /-- Equality of numbers; never true of null. -/
  same : α → α → Bool
  /-- The scale of the channel index, 0.015. -/
  channelScale : α

namespace Float64

/-- The smaller number: a negative infinity wins, then not-a-number, and of two zeros the negative
one. -/
def min (x y : Float) : Float :=
  if x == negInfinity || y == negInfinity then negInfinity
  else if x.isNaN || y.isNaN then nan
  else if x == 0 && x == y then (if isNegative x then x else y)
  else if x < y then x else y

/-- The larger number: an infinity wins, then not-a-number, and of two zeros the positive one. -/
def max (x y : Float) : Float :=
  if x == infinity || y == infinity then infinity
  else if x.isNaN || y.isNaN then nan
  else if x == 0 && x == y then (if isNegative x then y else x)
  else if y < x then x else y

end Float64

instance : Arithmetic Float where
  null := Float64.nan
  isNull := Float.isNaN
  ofInt := Float64.ofInt
  sqrt := Float.sqrt
  abs := Float64.abs
  min := Float64.min
  max := Float64.max
  lt x y := x < y
  same x y := x == y
  channelScale := 0.015

end Dataflow
