import Dataflow.Series.Basic
import Dataflow.Value.Basic

/-!
# Series functions by name

The functions on series under their names, over named columns and parameters.
-/

namespace Dataflow.Series

variable {α : Type} [Arithmetic α]

structure Inputs (α : Type) where
  column : Text → List α
  size : Text → Int64
  factor : Text → α

/-- The series that a function gives; `none` where it cannot be applied. -/
def named? (i : Inputs α) (name : Text) : Option (Option (List (List α))) :=
  let x := i.column "x"
  let high := i.column "high"
  let low := i.column "low"
  let close := i.column "close"
  let vol := i.column "vol"
  let n := i.size "n"
  let one (o : Option (List α)) : Option (List (List α)) := o.map ([·])
  let two (o : Option (List α × List α)) : Option (List (List α)) := o.map fun (a, b) => [a, b]
  let three (o : Option (List α × List α × List α)) : Option (List (List α)) :=
    o.map fun (a, b, c) => [a, b, c]
  let table : List (Text × (Unit → Option (List (List α)))) :=
    [("sma", fun _ => one (sma? x n)),
     ("ema", fun _ => one (some (ema x n))),
     ("wma", fun _ => one (wma? x n)),
     ("rsi", fun _ => one (rsi? x n)),
     ("ewm", fun _ => one (some (ewm x (i.factor "alpha")))),
     ("macd", fun _ => three (some (macd x (i.size "fast") (i.size "slow") (i.size "signal")))),
     ("bollinger", fun _ => three (bollinger? x n (i.factor "k"))),
     ("stoch", fun _ => two (stochastic? high low close n (i.size "smooth"))),
     ("typical", fun _ => one (typical? high low close)),
     ("true_range", fun _ => one (trueRange? high low close)),
     ("cci", fun _ => one (cci? high low close n)),
     ("atr", fun _ => one (atr? high low close n)),
     ("adx", fun _ => one (adx? high low close n)),
     ("wilder", fun _ => one (wilder? x n (i.size "from") (i.size "seed"))),
     ("dm", fun _ => two (directional? high low)),
     ("obv", fun _ => one (obv? close vol)),
     ("vwap", fun _ => one (vwap? (i.column "price") vol))]
  ((table.find? (·.1 = name)).map Prod.snd).map fun f => f ()

end Dataflow.Series
