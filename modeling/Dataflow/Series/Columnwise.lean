import Dataflow.Indicator

/-!
# Indicators column by column

The indicators again, each as a combination of operations on whole columns: rolling windows,
weighted means, differences and running sums.  A column that an operation cannot work on gives
`none`.
-/

namespace Dataflow.Columnwise

open Arithmetic

variable {α : Type} [Arithmetic α]

def nulls (n : Nat) : List α := List.replicate n null

def rolling? (xs : List α) (n : Int64) (f : List α → Nat → α) : Option (List α) :=
  (Series.windowSize? n).map fun w =>
    xs.mapIdx fun i _ => if i + 1 < w then null else f ((xs.drop (i + 1 - w)).take w) i

def rollingSum? (xs : List α) (n : Int64) : Option (List α) :=
  rolling? xs n fun w _ => w.foldl (· + ·) (ofInt 0)

def rollingMean? (xs : List α) (n : Int64) : Option (List α) :=
  (rollingSum? xs n).map fun sums => sums.map (· / ofInt n.toInt)

def rollingDeviation? (xs means : List α) (n : Int64) : Option (List α) :=
  rolling? xs n fun w i =>
    let m := means.getD i null
    sqrt (w.foldl (fun acc x => let d := x - m; acc + d * d) (ofInt 0) / ofInt n.toInt)

def rollingDistance? (xs means : List α) (n : Int64) : Option (List α) :=
  rolling? xs n fun w i =>
    let m := means.getD i null
    w.foldl (fun acc x => acc + abs (x - m)) (ofInt 0) / ofInt n.toInt

def rollingLeast? (xs : List α) (n : Int64) : Option (List α) := rolling? xs n fun w _ => Series.least w

def rollingGreatest? (xs : List α) (n : Int64) : Option (List α) :=
  rolling? xs n fun w _ => Series.greatest w

def rollingWeighted? (xs : List α) (n : Int64) : Option (List α) :=
  let total := ofInt (n * (n + 1)).toInt / ofInt 2
  rolling? xs n fun w _ => Series.weightedSum w / total

/-- Carries a state down a column; each cell gives the next state and a cell of the result. -/
def scan {σ : Type} (step : σ → α → σ × α) : σ → List α → List α
  | _, [] => []
  | s, x :: xs => (step s x).2 :: scan step (step s x).1 xs

def ewmStep (alpha : α) (mean : Option α) (x : α) : Option α × α :=
  if isNull x then (mean, null)
  else
    let e := match mean with
      | some e => alpha * x + (ofInt 1 - alpha) * e
      | none => x
    (some e, e)

def ewm (xs : List α) (alpha : α) : List α := scan (ewmStep alpha) none xs

def spanWeight (n : Int64) : α := ofInt 2 / ofInt (n + 1).toInt

/-- Smoothing that starts at row `seed` with the mean of rows `start` to `seed`. -/
def wilder? (xs : List α) (n start seed : Int64) : Option (List α) :=
  if (xs.length : Int) ≤ seed.toInt ∨ seed < start then some (nulls xs.length)
  else do
    let window ← Series.slice? xs start seed
    let row := seed.toInt.toNat
    let first := window.foldl (· + ·) (ofInt 0) / ofInt (seed - start + 1).toInt
    let alpha := ofInt 1 / ofInt n.toInt
    let later := scan (fun mean x =>
      let y := alpha * x + (ofInt 1 - alpha) * mean
      (y, y)) first (xs.drop (row + 1))
    return nulls row ++ first :: later

def diff (xs : List α) : List α :=
  match xs with
  | [] => []
  | _ :: _ => null :: List.zipWith (· - ·) xs.tail xs

/-- The column moved down one row; an empty column cannot be moved. -/
def shift? (xs : List α) : Option (List α) :=
  if xs.isEmpty then none else some (null :: xs.dropLast)

def cumsum (xs : List α) : List α :=
  scan (fun total x => if isNull x then (total, null) else (total + x, total + x)) (ofInt 0) xs

/-- Two columns cell by cell; the second must not be shorter. -/
def zip? (xs ys : List α) (f : α → α → α) : Option (List α) :=
  if ys.length < xs.length then none else some (List.zipWith f xs ys)

def sub? (xs ys : List α) : Option (List α) := zip? xs ys (· - ·)

def rsi? (xs : List α) (n : Int64) : Option (List α) :=
  let first := n + 1
  if (xs.length : Int) ≤ first.toInt then some (nulls xs.length)
  else do
    let d := diff xs
    let gains := d.mapIdx fun i x =>
      if i = 0 then ofInt 0 else if lt (ofInt 0) x then x else ofInt 0
    let losses := d.mapIdx fun i x =>
      if i = 0 then ofInt 0 else if lt (ofInt 0) x then ofInt 0 else -x
    let gain ← wilder? gains n 1 n
    let loss ← wilder? losses n 1 n
    if first < 0 then none
    return xs.mapIdx fun i _ =>
      if (i : Int) < first.toInt then null
      else Series.strength (gain.getD i null) (loss.getD i null)

def stochastic? (high low close : List α) (n : Int64) : Option (List α) := do
  let bottom ← rollingLeast? low n
  let top ← rollingGreatest? high n
  let w ← Series.windowSize? n
  if w ≤ close.length ∧ (bottom.length < close.length ∨ top.length < close.length) then none
  return close.mapIdx fun i c =>
    if i + 1 < w then null
    else
      let l := bottom.getD i null
      let range := top.getD i null - l
      if same range (ofInt 0) then ofInt 100 else ofInt 100 * (c - l) / range

def cci? (high low close : List α) (n : Int64) : Option (List α) := do
  if high.length < close.length ∨ low.length < close.length then none
  let tp := close.mapIdx fun i c => (high.getD i null + low.getD i null + c) / ofInt 3
  let mean ← rollingMean? tp n
  let distance ← rollingDistance? tp mean n
  let w ← Series.windowSize? n
  return tp.mapIdx fun i x =>
    if i + 1 < w then null
    else
      let d := distance.getD i null
      if same d (ofInt 0) then ofInt 0 else (x - mean.getD i null) / (channelScale * d)

def trueRange? (high low close : List α) : Option (List α) := do
  let prev ← shift? close
  let range ← sub? high low
  if 1 < range.length ∧ prev.length < range.length then none
  return range.mapIdx fun i r =>
    if i = 0 then r
    else
      let p := prev.getD i null
      max r (max (abs (high.getD i null - p)) (abs (low.getD i null - p)))

def adx? (high low close : List α) (n : Int64) : Option (List α) :=
  if (close.length : Int) < (2 * n).toInt then some (nulls close.length)
  else do
    let up := diff high
    let down := (diff low).map fun x => -x
    if 1 < close.length ∧ (up.length < close.length ∨ down.length < close.length) then none
    let move (f : α → α → α) : List α := close.mapIdx fun i _ =>
      if i = 0 then ofInt 0 else f (up.getD i null) (down.getD i null)
    let plus := move fun u d => if lt d u && lt (ofInt 0) u then u else ofInt 0
    let minus := move fun u d => if lt u d && lt (ofInt 0) d then d else ofInt 0
    let range ← wilder? (← trueRange? high low close) n 1 n
    let p ← wilder? plus n 1 n
    let m ← wilder? minus n 1 n
    if n < 0 then none
    let dx := close.mapIdx fun i _ =>
      if (i : Int) < n.toInt then null
      else Series.directionIndex (p.getD i null) (m.getD i null) (range.getD i null)
    wilder? dx n n (2 * n - 1)

def signedFrom? : Option α → List α → List α → Option (List α)
  | _, [], _ => some []
  | prev, c :: cs, vs =>
    if isNull c then (signedFrom? prev cs vs.tail).map (null :: ·)
    else
      match vs with
      | [] => none
      | v :: vs =>
        if isNull v then (signedFrom? prev cs vs).map (null :: ·)
        else
          let x := match prev with
            | none => v
            | some p => if lt p c then v else if lt c p then -v else ofInt 0
          (signedFrom? (some c) cs vs).map (x :: ·)

def obv? (close vol : List α) : Option (List α) := (signedFrom? none close vol).map cumsum

def vwap? (price vol : List α) : Option (List α) := do
  let value := cumsum (← zip? price vol (· * ·))
  let volume := cumsum (← zip? price vol fun p v => if isNull p then null else v)
  return price.mapIdx fun i p =>
    let x := value.getD i null
    let v := volume.getD i null
    if isNull x then null else if same v (ofInt 0) then p else x / v

def values? (k : Indicator) (p : Indicator.Params α) (column : Text → List α) :
    Option (List (List α)) :=
  let field := column p.field
  let n := p.window
  let high := column p.high
  let low := column p.low
  let close := column p.close
  match k with
  | .sma => return [← rollingMean? field n]
  | .ema => return [ewm field (spanWeight n)]
  | .wma => return [← rollingWeighted? field n]
  | .rsi => return [← rsi? field n]
  | .macd => do
    let line ← sub? (ewm field (spanWeight p.fast)) (ewm field (spanWeight p.slow))
    let signal := ewm line (spanWeight p.signal)
    return [line, signal, ← sub? line signal]
  | .bbands => do
    let mid ← rollingMean? field n
    let sd ← rollingDeviation? field mid n
    let upper ← zip? mid sd fun m s => m + p.std * s
    let lower ← zip? mid sd fun m s => m - p.std * s
    return [mid, upper, lower]
  | .stoch => do
    let k ← stochastic? high low close n
    return [k, ← rollingMean? k p.smooth]
  | .cci => return [← cci? high low close n]
  | .atr => return [← wilder? (← trueRange? high low close) n 0 (n - 1)]
  | .adx => return [← adx? high low close n]
  | .obv => return [← obv? close (column p.vol)]
  | .vwap => return [← vwap? (Indicator.priceColumn p column) (column p.vol)]
  | .other _ => return []

end Dataflow.Columnwise
