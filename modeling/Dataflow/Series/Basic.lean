import Dataflow.Series.Arithmetic

/-!
# Series

The moving averages and indices of a series of numbers, row by row.  Sums of a window run from the
oldest row to the newest.  Row numbers and window sizes are 64-bit integers whose arithmetic wraps
around; a function that would read or write outside a series gives `none`.
-/

namespace Dataflow.Series

open Arithmetic

variable {α : Type} [Arithmetic α]

def nulls (n : Nat) : List α := List.replicate n null

/-- The rows of the series from `lo` to `hi`, both included. -/
def slice? (xs : List α) (lo hi : Int64) : Option (List α) :=
  if hi < lo then some []
  else if 0 ≤ lo ∧ hi.toInt < xs.length then
    some ((xs.drop lo.toInt.toNat).take (hi.toInt - lo.toInt + 1).toNat)
  else none

def sum (xs : List α) : α := xs.foldl (· + ·) (ofInt 0)

/-- The number of rows in a window of the given size; a size for which the first full window would
end before the first row has none. -/
def windowSize? (n : Int64) : Option Nat :=
  let last := n - 1
  if last < 0 then none else some (last.toInt.toNat + 1)

def windowAt (xs : List α) (w i : Nat) : List α := (xs.drop (i + 1 - w)).take w

/-- A number for every full window and null before the first. -/
def rolling (xs : List α) (w : Nat) (f : Nat → List α → α) : List α :=
  xs.mapIdx fun i _ => if i + 1 < w then null else f i (windowAt xs w i)

def sma? (xs : List α) (n : Int64) : Option (List α) :=
  (windowSize? n).map fun w => rolling xs w fun _ win => sum win / ofInt n.toInt

/-- The exponentially weighted mean from a running mean on.  A null row stays null and leaves the
mean as it was; the first number is the first mean. -/
def ewmFrom (alpha : α) : Option α → List α → List α
  | _, [] => []
  | state, x :: xs =>
    if isNull x then null :: ewmFrom alpha state xs
    else
      let e := match state with
        | none => x
        | some e => alpha * x + (ofInt 1 - alpha) * e
      e :: ewmFrom alpha (some e) xs

def ewm (xs : List α) (alpha : α) : List α := ewmFrom alpha none xs

/-- The exponential moving average with weight `2 / (n + 1)`. -/
def ema (xs : List α) (n : Int64) : List α := ewm xs (ofInt 2 / ofInt (n + 1).toInt)

def weightedSum (xs : List α) : α :=
  (xs.zipIdx 1).foldl (fun acc (x, w) => acc + ofInt w * x) (ofInt 0)

/-- The linearly weighted moving average; the newest row has weight `n`. -/
def wma? (xs : List α) (n : Int64) : Option (List α) :=
  let total := ofInt (n * (n + 1)).toInt / ofInt 2
  (windowSize? n).map fun w => rolling xs w fun _ win => weightedSum win / total

/-- Pairs each row but the first with the row before. -/
def steps (xs : List α) (f : α → α → α) : List α := List.zipWith f xs.tail xs

/-- The gain of each row over the row before, zero on the first row. -/
def gains (xs : List α) : List α :=
  if xs.isEmpty then []
  else ofInt 0 :: steps xs fun x prev =>
    let d := x - prev
    if lt (ofInt 0) d then d else ofInt 0

/-- The loss of each row against the row before, zero on the first row. -/
def losses (xs : List α) : List α :=
  if xs.isEmpty then []
  else ofInt 0 :: steps xs fun x prev =>
    let d := x - prev
    if lt (ofInt 0) d then ofInt 0 else -d

def strength (gain loss : α) : α :=
  if same loss (ofInt 0) then ofInt 100
  else ofInt 100 - ofInt 100 / (ofInt 1 + gain / loss)

def strengthFrom (alpha gain loss : α) : List (α × α) → List α
  | [] => []
  | (g, l) :: rest =>
    let gain := alpha * g + (ofInt 1 - alpha) * gain
    let loss := alpha * l + (ofInt 1 - alpha) * loss
    strength gain loss :: strengthFrom alpha gain loss rest

/-- The relative strength index.  The averages start at row `n` with the mean over rows `1` to `n`,
and the first index is that of row `n + 1`. -/
def rsi? (xs : List α) (n : Int64) : Option (List α) :=
  let first := n + 1
  if (xs.length : Int) ≤ first.toInt then some (nulls xs.length)
  else if first < 0 then none
  else
    let start := first.toInt.toNat
    let gs := gains xs
    let ls := losses xs
    let mean (ys : List α) : α := sum ((ys.drop 1).take (start - 1)) / ofInt n.toInt
    let alpha := ofInt 1 / ofInt n.toInt
    some (nulls start
      ++ strengthFrom alpha (mean gs) (mean ls) ((gs.zip ls).drop start))

def macd (xs : List α) (fast slow signal : Int64) : List α × List α × List α :=
  let line := List.zipWith (· - ·) (ema xs fast) (ema xs slow)
  let sig := ema line signal
  (line, sig, List.zipWith (· - ·) line sig)

def deviation (xs : List α) (n : Int64) (mean : α) : α :=
  let ss := xs.foldl (fun acc x => let d := x - mean; acc + d * d) (ofInt 0)
  sqrt (ss / ofInt n.toInt)

def deviationAt? (xs : List α) (i n : Int64) (mean : α) : Option α :=
  (slice? xs (i - n + 1) i).map fun win => deviation win n mean

/-- The simple moving average with bands `k` deviations above and below. -/
def bollinger? (xs : List α) (n : Int64) (k : α) : Option (List α × List α × List α) := do
  let w ← windowSize? n
  let mid ← sma? xs n
  let band (f : α → α → α) : List α := rolling xs w fun i win =>
    let m := mid.getD i null
    f m (k * deviation win n m)
  return (mid, band (· + ·), band (· - ·))

def least : List α → α
  | [] => null
  | x :: xs => xs.foldl min x

def greatest : List α → α
  | [] => null
  | x :: xs => xs.foldl max x

/-- The place of the close in the range of the window, in per cent, and its moving average.  An
empty range counts as one hundred. -/
def stochastic? (high low close : List α) (n smooth : Int64) : Option (List α × List α) := do
  let w ← windowSize? n
  if w ≤ close.length ∧ (high.length < close.length ∨ low.length < close.length) then none
  let k := rolling close w fun i _ =>
    let bottom := least (windowAt low w i)
    let range := greatest (windowAt high w i) - bottom
    if same range (ofInt 0) then ofInt 100
    else ofInt 100 * (close.getD i null - bottom) / range
  return (k, ← sma? k smooth)

/-- A third of high, low and close. -/
def typical? (high low close : List α) : Option (List α) :=
  if high.length < close.length ∨ low.length < close.length then none
  else some (close.mapIdx fun i c => (high.getD i null + low.getD i null + c) / ofInt 3)

/-- The commodity channel index; zero where the window does not deviate. -/
def cci? (high low close : List α) (n : Int64) : Option (List α) := do
  let w ← windowSize? n
  let tp ← typical? high low close
  let mean ← sma? tp n
  return rolling tp w fun i win =>
    let m := mean.getD i null
    let md := win.foldl (fun acc x => acc + abs (x - m)) (ofInt 0) / ofInt n.toInt
    if same md (ofInt 0) then ofInt 0 else (tp.getD i null - m) / (channelScale * md)

/-- The range of a row: high less low, or the distance of either from the close before where that is
larger. -/
def trueRange? (high low close : List α) : Option (List α) :=
  if high.length < close.length ∨ low.length < close.length then none
  else some (close.mapIdx fun i _ =>
    let h := high.getD i null
    let l := low.getD i null
    if i = 0 then h - l
    else
      let prev := close.getD (i - 1) null
      max (h - l) (max (abs (h - prev)) (abs (l - prev))))

def smoothFrom (alpha mean : α) : List α → List α
  | [] => []
  | x :: xs =>
    let mean := alpha * x + (ofInt 1 - alpha) * mean
    mean :: smoothFrom alpha mean xs

/-- Smoothing that starts at row `seed` with the mean of rows `start` to `seed` and goes on with
weight `1 / n`.  Rows before are null. -/
def wilder? (xs : List α) (n start seed : Int64) : Option (List α) :=
  if (xs.length : Int) ≤ seed.toInt ∨ seed < start then some (nulls xs.length)
  else do
    let win ← slice? xs start seed
    let mean := sum win / ofInt (seed - start + 1).toInt
    let row := seed.toInt.toNat
    return nulls row ++ mean :: smoothFrom (ofInt 1 / ofInt n.toInt) mean (xs.drop (row + 1))

def atr? (high low close : List α) (n : Int64) : Option (List α) := do
  wilder? (← trueRange? high low close) n 0 (n - 1)

/-- The upward and downward movement of each row against the row before, zero on the first. -/
def directional? (high low : List α) : Option (List α × List α) :=
  if 1 < high.length ∧ low.length < high.length then none
  else
    let moves := high.mapIdx fun i h =>
      if i = 0 then (ofInt 0, ofInt 0)
      else
        let up := h - high.getD (i - 1) null
        let down := low.getD (i - 1) null - low.getD i null
        (if lt down up && lt (ofInt 0) up then up else ofInt 0,
         if lt up down && lt (ofInt 0) down then down else ofInt 0)
    some (moves.map Prod.fst, moves.map Prod.snd)

def directionIndex (plus minus range : α) : α :=
  let (p, m) :=
    if same range (ofInt 0) then (ofInt 0, ofInt 0)
    else (ofInt 100 * plus / range, ofInt 100 * minus / range)
  let total := p + m
  if same total (ofInt 0) then ofInt 0 else ofInt 100 * abs (p - m) / total

/-- The average directional index.  Range and movements are smoothed from row `n`, and the index
from row `2 n - 1`. -/
def adx? (high low close : List α) (n : Int64) : Option (List α) :=
  if (close.length : Int) < (2 * n).toInt then some (nulls close.length)
  else do
    let tr ← trueRange? high low close
    let (plus, minus) ← directional? high low
    let range ← wilder? tr n 1 n
    let up ← wilder? plus n 1 n
    let down ← wilder? minus n 1 n
    if n < 0 then none
    let dx := close.mapIdx fun i _ =>
      if (i : Int) < n.toInt then null
      else directionIndex (up.getD i null) (down.getD i null) (range.getD i null)
    wilder? dx n n (2 * n - 1)

/-- The running balance of volume: the volume of a row is added where its close is above the last
one, and taken away where it is below.  The state holds balance and last close. -/
def balanceFrom? : Option (α × α) → List α → List α → Option (List α)
  | _, [], _ => some []
  | state, c :: cs, vs =>
    if isNull c then (balanceFrom? state cs vs.tail).map (null :: ·)
    else
      match vs with
      | [] => none
      | v :: vs =>
        if isNull v then (balanceFrom? state cs vs).map (null :: ·)
        else
          let balance := match state with
            | none => v
            | some (b, prev) => if lt prev c then b + v else if lt c prev then b - v else b
          (balanceFrom? (some (balance, c)) cs vs).map (balance :: ·)

/-- On-balance volume.  Rows with a null close or volume are null and are passed over. -/
def obv? (close vol : List α) : Option (List α) := balanceFrom? none close vol

/-- The running quotient of price times volume by volume; the price itself while the volume is
zero. -/
def averageFrom? (value volume : α) : List α → List α → Option (List α)
  | [], _ => some []
  | p :: ps, vs =>
    if isNull p then (averageFrom? value volume ps vs.tail).map (null :: ·)
    else
      match vs with
      | [] => none
      | v :: vs =>
        if isNull v then (averageFrom? value volume ps vs).map (null :: ·)
        else
          let value := value + p * v
          let volume := volume + v
          let mean := if same volume (ofInt 0) then p else value / volume
          (averageFrom? value volume ps vs).map (mean :: ·)

/-- The volume-weighted average price.  Rows with a null price or volume are null and are passed
over. -/
def vwap? (price vol : List α) : Option (List α) := averageFrom? (ofInt 0) (ofInt 0) price vol

end Dataflow.Series
