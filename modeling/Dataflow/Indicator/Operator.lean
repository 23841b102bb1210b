import Dataflow.Indicator
import Dataflow.Stream

/-!
# Indicators as operators

The custom operators that compute indicators, with their settings.
-/

namespace Dataflow.Indicator

def operator (k : Indicator) (settings : Row) : Operator :=
  .custom k.name (Fields.ofList settings)

def ofColumn (k : Indicator) (window : Int64) (field : Text) : Operator :=
  k.operator [("window", .int window), ("field", .text field)]

def ofWindow (k : Indicator) (window : Int64) : Operator := k.operator [("window", .int window)]

def macdOf (fast slow signal : Int64) (field : Text) : Operator :=
  macd.operator [("fast", .int fast), ("slow", .int slow), ("signal", .int signal),
    ("field", .text field)]

def bandsOf (window : Int64) (std : Float) (field : Text) : Operator :=
  bbands.operator [("window", .int window), ("std", .float std), ("field", .text field)]

def stochasticOf (window smooth : Int64) : Operator :=
  stoch.operator [("window", .int window), ("smooth", .int smooth)]

end Dataflow.Indicator
