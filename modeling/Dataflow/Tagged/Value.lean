import Dataflow.Function.Recipe
import Dataflow.Json.Reader

/-!
# Tagged documents

A form of values as documents that loses nothing.  What a document has is written as it is; any other
value is an object with one member, whose name starts with a dollar sign and tells what it stands
for.  Functions are given by description, and are entered in a catalogue as they are read.
-/

namespace Dataflow.Tagged

def hexBytes : List UInt8 → List UInt8
  | a :: b :: r =>
    match Byte.hexValue? a, Byte.hexValue? b with
    | some x, some y => (x * 16 + y).toUInt8 :: hexBytes r
    | _, _ => hexBytes r
  | _ => []

def decimal (t : Text) : Float :=
  match readFloat t with
  | .ok x => x
  | .error _ => if t.startsWith "-" then Float64.negInfinity else Float64.infinity

def text : Json → Text
  | .text t => t
  | .object [(k, .text h)] => if k = "$b" then ⟨hexBytes h.bytes⟩ else ""
  | _ => ""

def number : Json → Float
  | .number t => decimal t
  | .object [(k, .text t)] =>
    if k = "$f" then decimal t
    else if k = "$int" then Float64.ofInt (t.toInt?.getD 0)
    else 0
  | _ => 0

def integer : Json → Int
  | .number t => match t.toInt? with
    | some n => n
    | none => (Float64.truncate? (decimal t)).getD 0
  | .object [(k, .text t)] => if k = "$int" then t.toInt?.getD 0 else 0
  | _ => 0

abbrev Reading := StateT Catalogue (Except Text)

def misread {α : Type} : Reading α := throw ("bad value" : Text)

def named (spec : Row) (key current : Text) : Text :=
  match (Fields.get? spec key).getD .null with
  | .text t => t
  | _ => current

def wordOf (spec : Row) (key : Text) : Text := named spec key ""

/-- What a description stands for: a standard function, none, or one that is entered. -/
def described {F : Type} (spec : Row) (none : F) (standard? : Text → Option F)
    (enter : Text → Value → Reading F) : Reading F :=
  match Fields.get? spec "std" with
  | some (.text n) => pure ((standard? n).getD none)
  | some _ => pure none
  | .none =>
    let word := wordOf spec "f"
    if word = "none" then pure none else enter word ((Fields.get? spec "arg").getD .null)

def func (spec : Row) (s : Signature) : Reading Func := do
  let f ← described spec {} (fun n => StandardFunc.funcs.find? (·.name = n)) fun word arg => do
    let c ← get
    set { c with funcs := c.funcs ++ [(s, Recipe.ofName word arg)] }
    pure { code := some (.supplied c.funcs.length) }
  return { f with name := named spec "name" f.name, expr := named spec "expr" f.expr }

def fold (spec : Row) : Reading FoldFunc := do
  let f ← described spec {} (fun n => StandardFunc.folds.find? (·.name = n)) fun word arg => do
    let c ← get
    set { c with folds := c.folds ++ [FoldRecipe.ofName word arg] }
    pure { code := some (.supplied c.folds.length) }
  return { f with name := named spec "name" f.name, expr := named spec "expr" f.expr }

def funcValue (spec : Row) : Reading Value := do
  let form := wordOf spec "as"
  let f ← func spec (if form = "plain" then .total else if form = "bool" then .predicate else .checked)
  let code := f.code.getD (.standard .identity)
  return if form = "ptr" then .reference Value.funcType (Symbol.place {}) (.func f)
    else if form = "nil ptr" then .noReference Value.funcType (some .text)
    else if form = "closure" then .closure .checked code {}
    else if form = "plain" then .closure .total code {}
    else if form = "bool" then .closure .predicate code {}
    else .func f

def foldValue (spec : Row) : Reading Value := do
  let f ← fold spec
  if wordOf spec "as" = "closure" then
    match f.code with
    | some c => return .foldClosure c {}
    | none => return .noFunc "func(interface {}, interface {}) (interface {}, error)"
  else return .fold f

def sized (type t : Text) : Reading Value :=
  if type = "json.Number" then pure (.numeral t)
  else if type = "float32" then pure (.single (decimal t).toFloat32)
  else match IntType.all.find? (·.name = type) with
    | some it => pure (.sized it (it.wrap (t.toInt?.getD 0)))
    | none => misread

def rowOrNone (v : Value) : Value :=
  match v with
  | .row f => .row f
  | _ => .noRow

variable (other : Text → Value → Option Value)

/-- What a tag and the value under it stand for; `other` knows further tags. -/
def interpret (tag : Text) (v : Value) : Reading Value :=
  let t : Text := match v with
    | .text t => t
    | _ => ""
  if tag = "$int" then pure (.int (Int64.ofInt (t.toInt?.getD 0)))
  else if tag = "$f" then pure (.float (decimal t))
  else if tag = "$b" then pure (.text ⟨hexBytes t.bytes⟩)
  else match v with
    | .list xs =>
      if tag = "$ints" then
        pure (.sequence "[]int" (xs.map fun x => .int ((x.toInt?).getD 0)))
      else if tag = "$rows" then pure (.rows (xs.map rowOrNone))
      else match xs with
        | [.text type, .text t] => if tag = "$t" then sized type t else misread
        | _ => misread
    | .row spec =>
      if tag = "$fn" then funcValue spec
      else if tag = "$rfn" then foldValue spec
      else misread
    | v => match other tag v with
      | some w => pure w
      | none => misread

mutual

def read : Json → Reading Value
  | .null => return .null
  | .bool b => return .bool b
  | .number t => return .float (decimal t)
  | .text t => return .text t
  | .array xs => do return .list (← readAll xs)
  | .object ms => do
    match ← readMembers ms with
    | [(k, v)] => if k.startsWith "$" then interpret other k v else return .row [(k, v)]
    | fields => return .row (Fields.ofList fields)

def readAll : List Json → Reading (List Value)
  | [] => return []
  | j :: js => do
    let v ← read j
    return v :: (← readAll js)

def readMembers : List (Text × Json) → Reading (List (Text × Value))
  | [] => return []
  | (k, j) :: ms => do
    let v ← read j
    return (k, v) :: (← readMembers ms)

end

def ofText (t : Text) : Json :=
  if t.toString?.isSome then .text t
  else .object [("$b", .text ⟨t.bytes.flatMap Byte.hex⟩)]

def ofFloat (x : Float) : Json :=
  let t := NumberStyle.document.float x
  if x.isNaN || x.isInf || (x == 0 && Float64.isNegative x) then .object [("$f", .text t)]
  else .number t

scoped instance : Coe Text Json := ⟨ofText⟩
scoped instance : Coe (List Text) Json := ⟨fun ts => .array (ts.map ofText)⟩
scoped instance : Coe Float Json := ⟨ofFloat⟩
scoped instance : Coe Bool Json := ⟨.bool⟩
scoped instance : Coe Nat Json := ⟨.ofNat⟩
scoped instance : Coe Int Json := ⟨.ofInt⟩
scoped instance : Coe Int64 Json := ⟨fun n => .ofInt n.toInt⟩

variable (unknown : Text)

mutual

def write : Value → Json
  | .null => .null
  | .bool b => b
  | .text t => t
  | .float x => x
  | .int n => .object [("$int", .text (Text.ofInt n.toInt))]
  | .sized t n => .object [("$t", .array [.text t.name, .text (Text.ofInt n)])]
  | .single x => .object [("$t", .array [.text "float32", .text (Value.single x).toMessage])]
  | .numeral t => .object [("$t", .array [.text "json.Number", t])]
  | .list xs => .array (writeAll xs)
  | .noList => .array []
  | .row f => .object (writeFields f)
  | .noRow => .null
  | .func f => .object [("$fn", f.text)]
  | .fold f => .object [("$rfn", f.text)]
  | .sequence t xs =>
    if t = "[]string" || t = "[]" ++ Value.rowType || t = "[]validation.FieldError" then
      .array (writeAll xs)
    else .object [(unknown, .text t)]
  | .record t f =>
    if t = "validation.FieldError" then .object (writeFields f)
    else .object [(unknown, .text t)]
  | v => .object [(unknown, v.typeName)]

def writeAll : List Value → List Json
  | [] => []
  | v :: vs => write v :: writeAll vs

def writeFields : List (Text × Value) → List (Text × Json)
  | [] => []
  | (k, v) :: fs => (k, write v) :: writeFields fs

end

end Dataflow.Tagged
