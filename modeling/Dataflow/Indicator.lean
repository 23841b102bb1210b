import Dataflow.Series.Basic
import Dataflow.Value.Row
import Dataflow.Validation

/-!
# Indicators

An indicator adds columns to a table: moving averages, bands, oscillators and volume measures.
`Indicator.Params` are its settings, read from the settings of a node with a default for each, and
`evaluate` computes its columns from the columns of the table.
-/

namespace Dataflow

inductive Indicator where
  | sma
  | ema
  | wma
  | rsi
  | macd
  | bbands
  | stoch
  | cci
  | atr
  | adx
  | obv
  | vwap
  /-- A name that is no indicator. -/
  | other (name : Text)
deriving DecidableEq

namespace Indicator

def name : Indicator → Text
  | sma => "SMA"
  | ema => "EMA"
  | wma => "WMA"
  | rsi => "RSI"
  | macd => "MACD"
  | bbands => "BBands"
  | stoch => "Stoch"
  | cci => "CCI"
  | atr => "ATR"
  | adx => "ADX"
  | obv => "OBV"
  | vwap => "VWAP"
  | other n => n

def all : List Indicator := [sma, ema, wma, rsi, macd, bbands, stoch, cci, atr, adx, obv, vwap]

def lookup? (n : Text) : Option Indicator := all.find? (Text.sameFold ·.name n)

def ofName (n : Text) : Indicator := (all.find? (·.name = n)).getD (other n)

structure Params (α : Type) where
  window : Int64
  field : Text
  fast : Int64
  slow : Int64
  signal : Int64
  std : α
  smooth : Int64
  high : Text
  low : Text
  close : Text
  vol : Text
  price : Text

def defaults (k : Indicator) : Params Float :=
  { window := if k = bbands then 20 else 14, field := "close", fast := 12, slow := 26, signal := 9,
    std := 2, smooth := 3, high := "high", low := "low", close := "close", vol := "volume",
    price := "price" }

/-- A text setting, where it is not empty. -/
def textSetting (config : Row) (key default : Text) : Outcome Text := do
  let t ← Outcome.ofOption ((Fields.get? config key).getD .null).toText?
  return if t.isEmpty then default else t

def intSetting (config : Row) (key : Text) (default : Int64) : Int64 :=
  ((Fields.get? config key).bind Value.toInt?).getD default

def checks (k : Indicator) (p : Params Float) : Checks :=
  let window := Checks.atLeast [] "window" p.window.toInt 1
  match k with
  | macd => ((Checks.atLeast [] "fast" p.fast.toInt 1).atLeast "slow" p.slow.toInt 1).atLeast
      "signal" p.signal.toInt 1
  | bbands => window.nonNegative "std" p.std
  | stoch => window.atLeast "smooth" p.smooth.toInt 1
  | obv | vwap => []
  | _ => window

/-- The settings that are read as texts. -/
def texts : List Text := ["field", "high", "low", "close", "vol", "price"]

/-- The settings that are read as numbers. -/
def numbers : List Text := ["window", "fast", "slow", "signal", "smooth", "std"]

def params (k : Indicator) (config : Row) : Outcome (Params Float) := do
  let d := defaults k
  let p : Params Float :=
    { window := intSetting config "window" d.window
      fast := intSetting config "fast" d.fast
      slow := intSetting config "slow" d.slow
      signal := intSetting config "signal" d.signal
      smooth := intSetting config "smooth" d.smooth
      std := ((Fields.get? config "std").bind Value.toFloat?).getD d.std
      field := ← textSetting config "field" d.field
      high := ← textSetting config "high" d.high
      low := ← textSetting config "low" d.low
      close := ← textSetting config "close" d.close
      vol := ← textSetting config "vol" d.vol
      price := ← textSetting config "price" d.price }
  Outcome.ofExcept (checks k p).result
  return p

def columns {α : Type} (k : Indicator) (p : Params α) : List Text :=
  match k with
  | sma | ema | wma | rsi | atr | adx => [k.name.toLower ++ "_" ++ Text.ofInt p.window.toInt]
  | macd => ["macd", "macd_signal", "macd_hist"]
  | bbands => ["bb_mid", "bb_upper", "bb_lower"]
  | stoch => ["stoch_k", "stoch_d"]
  | cci => ["cci"]
  | obv => ["obv"]
  | vwap => ["vwap"]
  | other _ => []

section Evaluate

variable {α : Type} [Arithmetic α]

def priceColumn (p : Params α) (column : Text → List α) : List α :=
  let close := column p.close
  (column p.price).mapIdx fun i x => if Arithmetic.isNull x then close.getD i x else x

/-- The values of the columns an indicator adds, in order. -/
def values? (k : Indicator) (p : Params α) (column : Text → List α) : Option (List (List α)) :=
  let field := column p.field
  let bars (f : List α → List α → List α → Int64 → Option (List α)) : Option (List (List α)) :=
    (f (column p.high) (column p.low) (column p.close) p.window).map ([·])
  match k with
  | sma => (Series.sma? field p.window).map ([·])
  | ema => some [Series.ema field p.window]
  | wma => (Series.wma? field p.window).map ([·])
  | rsi => (Series.rsi? field p.window).map ([·])
  | macd =>
    let (m, s, h) := Series.macd field p.fast p.slow p.signal
    some [m, s, h]
  | bbands => (Series.bollinger? field p.window p.std).map fun (m, u, l) => [m, u, l]
  | stoch =>
    (Series.stochastic? (column p.high) (column p.low) (column p.close) p.window p.smooth).map
      fun (k, d) => [k, d]
  | cci => bars Series.cci?
  | atr => bars Series.atr?
  | adx => bars Series.adx?
  | obv => (Series.obv? (column p.close) (column p.vol)).map ([·])
  | vwap => (Series.vwap? (priceColumn p column) (column p.vol)).map ([·])
  | other _ => some []

def evaluate (k : Indicator) (p : Params α) (column : Text → List α) :
    Outcome (List (Text × List α)) :=
  match k with
  | other n => Outcome.fail (Failure.notFound "indicator" n)
  | _ => do
    let vs ← Outcome.ofOption (values? k p column)
    return (columns k p).zip vs

end Evaluate

def compute (k : Indicator) (p : Params Float) (rows : List Row) : Outcome (List Row) := do
  let outputs ← evaluate k p (Row.column rows)
  return rows.mapIdx fun i r =>
    outputs.foldl (fun r (name, xs) => Fields.set name (Row.cell (xs.getD i Float64.nan)) r) r

def computeNamed (kind : Text) (config : Row) (rows : List Row) : Outcome (List Row) :=
  match lookup? kind with
  | none => Outcome.fail (Failure.notFound "indicator" kind)
  | some k => do
    let p ← params k config
    compute k p rows

end Indicator

end Dataflow
