import Dataflow.Indicator.Operator
import Dataflow.Tagged.Failure

/-!
# Operators as tagged documents

An operator is a row of one cell, whose name is its kind and whose value holds its arguments.  Other
streams are given by name.
-/

namespace Dataflow.Tagged

def int64Of (v : Value) : Int64 := v.toInt?.getD 0

def listOf : Value → List Value
  | .list xs => xs
  | _ => []

def indicatorOperator (name : Text) (args : List Value) : Operator :=
  let int (i : Nat) := int64Of (args.getD i .null)
  let text (i : Nat) := textOf (args.getD i .null)
  let n := int 0
  let k := Indicator.ofName name.toUpper
  match name.display with
  | "MACD" => Indicator.macdOf n (int 1) (int 2) (text 3)
  | "Bollinger" => Indicator.bandsOf n ((args.getD 1 .null).number?.getD 0) (text 2)
  | "Stoch" => Indicator.stochasticOf n (int 1)
  | "OBV" | "VWAP" => k.operator []
  | "CCI" | "ATR" | "ADX" => k.ofWindow n
  | _ => k.ofColumn n (text 1)

variable (stream? : Text → Option Nat)

def simpleOperator (kind : Text) (v : Value) : Reading Operator := do
  let args := listOf v
  let first := args.getD 0 .null
  let second := args.getD 1 .null
  let settings := second.asRow?.getD []
  match kind.display with
  | "map" => return .map (← func (v.asRow?.getD []) .checked)
  | "filter" => return .filter (← func (v.asRow?.getD []) .checked)
  | "sink" => return .sink (textOf v)
  | "window" => return .window (int64Of v)
  | "reduce" => return .reduce (← fold (first.asRow?.getD [])) second
  | "custom" => return .custom (textOf first) settings
  | "join" => return .join (stream? (textOf first)) (textOf second)
  | "union" => return .union (args.map fun v => stream? (textOf v))
  | "node" => return .single (Op.ofName (textOf first)) settings
  | "ind" => return indicatorOperator (textOf first) (args.drop 1)
  | _ => misread

mutual

def operator : Value → Reading Operator
  | .row [(kind, .list args)] => do
    match kind.display with
    | "chain" | "choice" | "ensemble" =>
      match ← operators args with
      | [] => misread
      | first :: more =>
        let second := more.headD default
        return if kind = "chain" then .chain first more
          else if kind = "choice" then .choice first second else .ensemble first second
    | _ => simpleOperator stream? kind (.list args)
  | .row [(kind, v)] => simpleOperator stream? kind v
  | _ => misread

def operators : List Value → Reading (List Operator)
  | [] => return []
  | v :: vs => do
    let o ← operator v
    return o :: (← operators vs)

end

end Dataflow.Tagged
