import Dataflow.Failure
import Dataflow.Value.Row

/-!
# Calling functions

Functions stand in settings as handles.  A `Library` gives the supplied ones their meaning; it may be
any total function that answers with a value or a failure.  The standard functions are part of this
module.
-/

namespace Dataflow

structure Library where
  apply : Nat → Value → Except Failure Value
  fold : Nat → Value → Value → Except Failure Value

/-- The library in which every supplied function is the identity. -/
def Library.empty : Library := ⟨fun _ v => .ok v, fun _ _ v => .ok v⟩

def Value.cell? (v : Value) (key : Text) : Option Float := v.asRow?.bind (Row.float? · key)

namespace StandardFunc

/-- Adds the typical price, a third of high, low and close, to a row. -/
def typical (v : Value) : Except Failure Value :=
  match v.asRow? with
  | none => .error (Failure.invalidInput "typical_price" "element is not a row")
  | some r =>
    let price : Value := match Row.float? r "high", Row.float? r "low", Row.float? r "close" with
      | some h, some l, some c => .float ((h + l + c) / 3)
      | _, _, _ => .null
    .ok (.row (Fields.set "tp" price r))

def call : StandardFunc → Value → Except Failure Value
  | identity, v => .ok v
  | positiveClose, v => .ok (.bool ((v.cell? "close").any (0 < ·)))
  | upDay, v => .ok (.bool (match v.cell? "close", v.cell? "open" with
    | some c, some o => o < c
    | _, _ => false))
  | typicalPrice, v => typical v

def funcs : List Func :=
  [⟨"identity", "", some (.standard .identity)⟩,
   ⟨"positive_close", "close > 0", some (.standard .positiveClose)⟩,
   ⟨"up_day", "close > open", some (.standard .upDay)⟩,
   ⟨"typical_price", "(high + low + close) / 3", some (.standard .typicalPrice)⟩]

def folds : List FoldFunc := [⟨"sum_close", "sum(close)", some .sumClose⟩]

end StandardFunc

variable (lib : Library)

def Code.call : Code → Value → Except Failure Value
  | .standard f, v => f.call v
  | .supplied n, v => lib.apply n v

def FoldCode.call : FoldCode → Value → Value → Except Failure Value
  | .sumClose, acc, v => .ok (.float (acc.toFloat.1 + (v.cell? "close").getD 0))
  | .supplied n, acc, v => lib.fold n acc v

namespace Func

def call (f : Func) (v : Value) : Except Failure Value :=
  match f.code with
  | none => .ok v
  | some c => c.call lib v

def test (f : Func) (v : Value) : Except Failure Bool :=
  match f.code with
  | none => .ok true
  | some c => do
    match ← c.call lib v with
    | .bool b => return b
    | w => throw (.plain ("predicate " ++ f.text ++ " returned " ++ w.typeName ++ ", want bool"))

end Func

end Dataflow
