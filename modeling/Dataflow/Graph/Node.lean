import Dataflow.Failure
import Dataflow.Value.Row

/-!
# Nodes

A node is one stage of a pipeline: an identifier, a tag, settings and the ordered identifiers of the
nodes it reads.  Twelve tags are declared; a graph that is built by hand may hold any other.  `Node.text`
and its companions read settings with a default.  Reading the text of a reference to nothing crashes where
its type writes its values itself, and so does calling on such a reference for a function.

`Text.ident` turns any identifier into one that programs accept, without ever giving two
identifiers the same image.
-/

namespace Dataflow

inductive Op where
  | source
  | map
  | filter
  | reduce
  | window
  | join
  | sink
  | union
  | choice
  | ensemble
  | merge
  | custom
  | other (name : Text)
deriving DecidableEq, Inhabited

namespace Op

def name : Op → Text
  | source => "Source"
  | map => "Map"
  | filter => "Filter"
  | reduce => "Reduce"
  | window => "Window"
  | join => "Join"
  | sink => "Sink"
  | union => "Union"
  | choice => "Choice"
  | ensemble => "Ensemble"
  | merge => "Merge"
  | custom => "Custom"
  | other n => n

def declared : List Op :=
  [source, map, filter, reduce, window, join, sink, union, choice, ensemble, merge, custom]

def ofName? (n : Text) : Option Op := declared.find? (·.name = n)

def ofName (n : Text) : Op := (ofName? n).getD (other n)

def parse (n : Text) : Except Failure Op :=
  match ofName? n with
  | some op => .ok op
  | none => .error (Failure.invalidInput "type" ("unknown op type " ++ n))

def isDeclared : Op → Bool
  | other _ => false
  | _ => true

end Op

/-- One byte of an identifier as program text: lowercase letters and digits stay, a colon is
doubled underscore, and any other byte is an underscore and two hexadecimal digits. -/
def Byte.ident (b : UInt8) : List UInt8 :=
  if Byte.isLower b || Byte.isDigit b then [b]
  else if b == byte ':' then [byte '_', byte '_']
  else byte '_' :: Byte.hex b

def Text.ident (t : Text) : Text := ⟨t.bytes.flatMap Byte.ident⟩

/-- One stage of a pipeline. -/
structure Node where
  id : Text
  op : Op
  config : Row := []
  parents : List Text := []
deriving Inhabited

namespace Node

def shortId (n : Node) : Text := Dataflow.shortId n.id

def ident (n : Node) : Text := n.id.ident

def value? (n : Node) (key : Text) : Option Value := Fields.get? n.config key

def setting? (n : Node) (key : Text) : Option Value :=
  match n.value? key with
  | some .null | none => none
  | some v => some v

/-- A setting as text, or the default where it is absent or empty. -/
def text (n : Node) (key default : Text) : Outcome Text :=
  match n.setting? key with
  | none => .ok default
  | some v => do
    let t ← Outcome.ofOption v.toText?
    return if t.isEmpty then default else t

def int (n : Node) (key : Text) (default : Int64) : Int64 :=
  ((n.value? key).bind Value.toInt?).getD default

def float (n : Node) (key : Text) (default : Float) : Float :=
  ((n.value? key).bind Value.toFloat?).getD default

def kind (n : Node) : Outcome Text := if n.op = .custom then n.text "kind" "" else .ok ""

/-- The transform or predicate under a setting.  A bare function takes its name from the setting
`fn_name`. -/
def func? (n : Node) (key : Text) : Outcome (Option Func) :=
  match n.setting? key with
  | none => .ok none
  | some v => do
    let name ← n.text "fn_name" ""
    match v with
    | .func f => return some f
    | .reference t _ (.func f) => return if t = Value.funcType then some f else none
    | .noReference t _ => if t = Value.funcType then Outcome.crash else return none
    | .closure _ c _ => return some { name, code := some c }
    | _ => return none

def fold? (n : Node) (key : Text) : Outcome (Option FoldFunc) :=
  match n.setting? key with
  | some (.fold f) => .ok (some f)
  | some (.foldClosure c _) => do
    let name ← n.text "fn_name" ""
    return some { name, code := some c }
  | _ => .ok none

/-- The symbolic form of a node's function: the setting `expr`, or that of its function. -/
def expr (n : Node) : Outcome Text := do
  let e ← n.text "expr" ""
  if !e.isEmpty then return e
  match ← n.func? "fn" with
  | some f => if !f.expr.isEmpty then return f.expr
  | none => pure ()
  match ← n.func? "predicate" with
  | some f => if !f.expr.isEmpty then return f.expr
  | none => pure ()
  match ← n.fold? "fn" with
  | some f => return f.expr
  | none => return ""

end Node

end Dataflow
