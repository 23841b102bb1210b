import Dataflow.Function

/-!
# Functions by description

A recipe describes a function of one element in plain data, and a fold recipe one step of a fold.  A
`Catalogue` numbers recipes, and gives the supplied functions of a library their meaning.
-/

namespace Dataflow

def Value.number? : Value → Option Float
  | .float x => some x
  | .int n => some (Float64.ofInt n.toInt)
  | _ => none

def Value.cellOf? (v : Value) (key : Text) : Option Value := v.asRow?.bind (Fields.get? · key)

inductive Recipe where
  | identity
  | add (x : Float)
  | times (x : Float)
  | constant (v : Value)
  | failing (f : Failure)
  | failingAt (x : Float)
  | cell (key : Text)
  | withCell (key : Text) (v : Value)
  | wrapped
  | above (x : Float)
  | cellAbove (key : Text) (x : Float)
  | even

namespace Recipe

def isEven (x : Float) : Bool :=
  match Float64.truncate? x with
  | some n => Float64.ofInt n == x && n % 2 == 0
  | none => false

def onNumber (name : Text) (f : Float → Float) (v : Value) : Except Failure Value :=
  match v.number? with
  | some x => .ok (.float (f x))
  | none => .error (.plain (name ++ ": not a number"))

def apply : Recipe → Value → Except Failure Value
  | identity, v => .ok v
  | add y, v => onNumber "add" (· + y) v
  | times y, v => onNumber "mul" (· * y) v
  | constant w, _ => .ok w
  | failing f, _ => .error f
  | failingAt y, v => if v.number?.any (· == y) then .error (.plain "bad value") else .ok v
  | cell key, v => .ok ((v.cellOf? key).getD .null)
  | withCell key w, v => match v.asRow? with
    | some r => .ok (.row (Fields.set key w r))
    | none => .error (.plain "set: not a row")
  | wrapped, v => .ok (.row [("v", v)])
  | above y, v => .ok (.bool (v.number?.any (y < ·)))
  | cellAbove key y, v => .ok (.bool (((v.cellOf? key).bind Value.number?).any (y < ·)))
  | even, v => .ok (.bool (v.number?.any isEven))

/-- The recipe with a name and an argument, which is a pair for some. -/
def ofName (name : Text) (v : Value) : Recipe :=
  let number (v : Value) : Float := v.number?.getD 0
  let text (v : Value) : Text := v.toText?.getD ""
  let (first, second) : Value × Value := match v with
    | .list (a :: b :: _) => (a, b)
    | .list [a] => (a, .null)
    | _ => (.null, .null)
  let table : List (Text × Recipe) :=
    [("add", add (number v)), ("mul", times (number v)), ("const", constant v),
     ("fail", failing (.plain (text v))),
     ("fail_code", failing (Failure.new (ErrorCode.ofName (text first)) (text second))),
     ("fail_eq", failingAt (number v)), ("get", cell (text v)),
     ("set", withCell (text first) second), ("wrap", wrapped), ("gt", above (number v)),
     ("fgt", cellAbove (text first) (number second)), ("even", even),
     ("true", constant (.bool true)), ("false", constant (.bool false))]
  (Fields.get? table name).getD identity

/-- Applies a function whose signature lets no failure through. -/
def applyAs (s : Signature) (r : Recipe) (v : Value) : Except Failure Value :=
  match s, r.apply v with
  | .checked, w => w
  | .total, .ok w => .ok w
  | .total, .error _ => .ok .null
  | .predicate, .ok (.bool b) => .ok (.bool b)
  | .predicate, _ => .ok (.bool false)

end Recipe

inductive FoldRecipe where
  | sum
  | count
  | list
  | last
  | cellSum (key : Text)
  | failing (f : Failure)

namespace FoldRecipe

def apply (r : FoldRecipe) (acc v : Value) : Except Failure Value :=
  let total := acc.number?.getD 0
  match r with
  | sum => Recipe.onNumber "sum" (total + ·) v
  | count => .ok (.float (total + 1))
  | list => match acc with
    | .list xs => .ok (.list (xs ++ [v]))
    | _ => .ok (.list [v])
  | last => .ok v
  | cellSum key => .ok (.float (total + ((v.cellOf? key).bind Value.number?).getD 0))
  | failing f => .error f

def ofName (name : Text) (v : Value) : FoldRecipe :=
  let text : Text := v.toText?.getD ""
  let table : List (Text × FoldRecipe) :=
    [("sum", sum), ("count", count), ("list", list), ("fsum", cellSum text),
     ("fail", failing (.plain text))]
  (Fields.get? table name).getD last

end FoldRecipe

structure Catalogue where
  funcs : List (Signature × Recipe) := []
  folds : List FoldRecipe := []

def Catalogue.library (c : Catalogue) : Library :=
  { apply := fun n v => match c.funcs[n]? with
      | some (s, r) => r.applyAs s v
      | none => .ok v
    fold := fun n acc v => match c.folds[n]? with
      | some r => r.apply acc v
      | none => .ok v }

end Dataflow
