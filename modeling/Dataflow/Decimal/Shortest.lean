import Dataflow.Decimal.Binary

/-!
# The shortest decimal of a floating-point number

Every decimal inside the rounding interval of a number reads back as that number.  Among those with
the fewest digits `Decimal.shortest` takes the one nearest to the number.  It scales number and
interval to natural numbers and tries one power of ten after the other, from coarse to fine.
-/

namespace Dataflow

/-- The number `digits · 10 ^ exponent`. -/
structure Decimal where
  digits : Nat
  exponent : Int
deriving DecidableEq

namespace Decimal

/-- The value and the two half gaps around it, all in one unit. -/
structure Interval where
  value : Nat
  below : Nat
  above : Nat
  closed : Bool

def Interval.contains (i : Interval) (n : Nat) : Bool :=
  if i.closed then i.value ≤ n + i.below && n ≤ i.value + i.above
  else i.value < n + i.below && n < i.value + i.above

/-- The multiple of `10 ^ k` nearest to the value among the two around it that read back. -/
def Interval.onGrid? (i : Interval) (k : Nat) : Option Nat :=
  let step := Nat.pow 10 k
  let q := i.value / step
  let down := i.contains (q * step)
  let up := i.contains ((q + 1) * step)
  if down && up then
    let r := i.value % step
    some (if 2 * r < step || (2 * r == step && q % 2 == 0) then q else q + 1)
  else if down then some q
  else if up then some (q + 1)
  else none

/-- The coarsest grid from `10 ^ k` down on which some multiple reads back. -/
def Interval.search (i : Interval) : Nat → Nat × Nat
  | 0 => ((i.onGrid? 0).getD i.value, 0)
  | k + 1 =>
    match i.onGrid? (k + 1) with
    | some q => if q = 0 then i.search k else (q, k + 1)
    | none => i.search k

def stripZeros : Nat → Nat → Int → Decimal
  | 0, d, e => ⟨d, e⟩
  | n + 1, d, e => if d ≠ 0 ∧ d % 10 = 0 then stripZeros n (d / 10) (e + 1) else ⟨d, e⟩

/-- The fewest digits that read back as the number, and among those the nearest. -/
def shortest (format : BinaryFormat) (b : Binary) : Decimal :=
  if b.mantissa = 0 then ⟨0, 0⟩
  else
    -- in quarters of the last place both half gaps are whole
    let e := b.exponent - 2
    let narrow := b.mantissa = Nat.pow 2 (format.width - 1) ∧ format.least < b.exponent
    let unit := if 0 ≤ e then Nat.pow 2 e.toNat else Nat.pow 5 (-e).toNat
    let i : Interval :=
      { value := 4 * b.mantissa * unit
        below := (if narrow then 1 else 2) * unit
        above := 2 * unit
        closed := b.mantissa % 2 = 0 }
    let (q, k) := i.search (Nat.toDigits 10 i.value).length
    stripZeros 20 q ((k : Int) + (if 0 ≤ e then 0 else e))

end Decimal

end Dataflow
