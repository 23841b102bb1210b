import Dataflow.Message.Place
import Dataflow.Value.Describe

/-!
# Values at places

`Place.fill` is the text of a value at a place.  Lists, maps and records are written element by
element, each in the form the place asks for.  A value whose type writes itself as text is that text
where a text can stand.  A value that does not suit the place is reported inside the text, with its
type and the value as it is; the report does not ask the value for a text of its own.
-/

namespace Dataflow

namespace Place

structure Manner where
  place : Place
  /-- Values that write themselves as text do so. -/
  speaking : Bool
  misfit : Value → Text

namespace Manner

def asks (m : Manner) : Bool :=
  m.speaking && !m.place.typed && ['v', 's', 'x', 'X', 'q'].contains m.place.verb

def orMisfit (m : Manner) (v : Value) (t : Option Text) : Text := t.getD (m.misfit v)

def location : Nat := Symbol.place {}

def pointer (m : Manner) (v : Value) (target : Nat) : Text :=
  let p := m.place
  let hex (sharp : Bool) : Text := { p with sharp := sharp, verb := 'v' }.inBase 16 false target
  match p.verb with
  | 'v' =>
    if p.typed then
      "(" ++ v.typeName ++ ")(" ++ (if target = 0 then ("nil" : Text) else hex true) ++ ")"
    else if target = 0 then p.padded "<nil>"
    else hex (!p.sharp)
  | 'p' => hex (!p.sharp)
  | 'b' | 'o' | 'd' | 'x' | 'X' => m.orMisfit v (p.integer? false target)
  | _ => m.misfit v

def enclosed (first last : Text) (m : Manner) (type : Text) (parts : List Text) : Text :=
  if m.place.typed then type ++ "\x7b" ++ Text.join ", " parts ++ "\x7d"
  else first ++ Text.join " " parts ++ last

def listed := enclosed "[" "]"
def mapped := enclosed "map[" "]"
def fielded := enclosed "\x7b" "\x7d"

def field (m : Manner) (name : Text) (t : Text) : Text :=
  if m.place.typed || m.place.names then name ++ ":" ++ t else t

def absent (m : Manner) (type : Text) (empty : Text) : Text :=
  if m.place.typed then type ++ "(nil)" else empty

def function (m : Manner) (type codeType name expr : Text) (code : Bool) : Text :=
  let body : Value := .noFunc codeType
  m.fielded type
    [m.field "Name" (m.orMisfit (.text name) (m.place.text? name)),
     m.field "Fn" (m.pointer body (if code then location else 0)),
     m.field "Expr" (m.orMisfit (.text expr) (m.place.text? expr))]

/-- The type of an error without the mark of a reference. -/
def errorRecord (type message : Text) : Value :=
  .record (type.drop 1) [("s", .text message)]

def func (m : Manner) (f : Func) : Text :=
  m.function Value.funcType (Value.closure .checked (.standard .identity) {}).typeName f.name
    f.expr f.code.isSome

mutual

def value (m : Manner) (top : Bool) : Value → Text
  | .null =>
    if !top then (if m.place.typed then "interface \x7b\x7d(nil)" else "<nil>")
    else if m.place.verb = 'v' then m.place.padded "<nil>"
    else m.misfit .null
  | v@(.bool b) => m.orMisfit v (m.place.bool? b)
  | v@(.text t) | v@(.numeral t) | v@(.named _ t) => m.orMisfit v (m.place.text? t)
  | v@(.stamp s) => m.orMisfit v (m.place.text? s.text)
  | v@(.float x) => m.orMisfit v (m.place.float? x)
  | v@(.single x) => m.orMisfit v (m.place.float32? x)
  | v@(.int n) => m.orMisfit v (m.place.integer? true n.toInt)
  | v@(.sized t n) => m.orMisfit v (m.place.integer? t.isSigned n)
  | v@(.complex re im) => m.orMisfit v (m.place.complex? re im)
  | v@(.list xs) | v@(.sequence _ xs) => m.listed v.typeName (values m xs)
  | v@.noList => m.absent v.typeName "[]"
  | v@(.row fields) => m.mapped v.typeName (rowFields m id fields)
  | v@.noRow => m.absent v.typeName "map[]"
  | v@(.lexicon _ written fields) => m.mapped v.typeName (rowFields m written fields)
  | v@(.dictionary _ entries) => m.mapped v.typeName (pairs m entries)
  | v@(.record _ fields) => m.fielded v.typeName (recordFields m fields)
  | v@(.reference type place target) =>
    match if m.asks then Value.referredText? type target else none with
    | some t => m.orMisfit v (m.place.text? t)
    | none =>
      if top && type = target.typeName && target.isComposite then "&" ++ value m false target
      else m.pointer v place
  | v@(.noReference _ writing) => if m.asks && writing.isSome then "<nil>" else m.pointer v 0
  | v@(.error type message) =>
    if m.asks then m.orMisfit v (m.place.text? message)
    else if top then
      let r := errorRecord type message
      "&" ++ m.fielded r.typeName [m.field "s" (m.orMisfit r (m.place.text? message))]
    else m.pointer v location
  | v@(.func f) => if m.asks then m.orMisfit v (m.place.text? f.text) else m.func f
  | v@(.fold f) =>
    if m.asks then m.orMisfit v (m.place.text? f.text)
    else m.function v.typeName (Value.foldClosure .sumClose {}).typeName f.name f.expr f.code.isSome
  | v@(.closure _ _ s) | v@(.foldClosure _ s) => m.pointer v s.place
  | v@(.noFunc _) => m.pointer v 0

def values (m : Manner) : List Value → List Text
  | [] => []
  | v :: vs => value m false v :: values m vs

/-- The fields of a row; their names are texts and take the form of the place, too. -/
def rowFields (m : Manner) (written : Text → Text) : List (Text × Value) → List Text
  | [] => []
  | (k, v) :: fs =>
    let name := if m.asks then written k else k
    (m.orMisfit (.text name) (m.place.text? name) ++ ":" ++ value m false v) :: rowFields m written fs

def recordFields (m : Manner) : List (Text × Value) → List Text
  | [] => []
  | (k, v) :: fs => m.field k (value m false v) :: recordFields m fs

def pairs (m : Manner) : List (Value × Value) → List Text
  | [] => []
  | (k, v) :: es => (value m false k ++ ":" ++ value m false v) :: pairs m es

end

end Manner

def report (verb : Char) (what : Text) : Text := "%!" ++ Text.ofChar verb ++ "(" ++ what ++ ")"

def asIs (p : Place) (v : Value) : Text :=
  Manner.value { place := p.whole, speaking := false, misfit := fun _ => "" } true v

def misfit (p : Place) : Value → Text
  | .null => report p.verb "<nil>"
  | v => report p.verb (v.typeName ++ "=" ++ p.asIs v)

/-- Where a value refers to, if it is one that refers to a place. -/
def location? : Value → Option Nat
  | .noList | .noRow | .noReference _ _ | .noFunc _ => some 0
  | .list _ | .row _ | .lexicon _ _ _ | .dictionary _ _ | .error _ _ => some Manner.location
  | .sequence type _ => if type.startsWith "[]" then some Manner.location else none
  | .reference _ place _ => some place
  | .closure _ _ s | .foldClosure _ s => some s.place
  | _ => none

def fill (p : Place) (v : Value) : Text :=
  let m : Manner := { place := p, speaking := true, misfit := p.misfit }
  match p.verb, v with
  | 'T', .null => p.padded "<nil>"
  | 'T', v => p.padded (p.cut v.typeName)
  | 'p', .null => p.misfit .null
  | 'p', v => m.orMisfit v ((location? v).map (m.pointer v))
  | 'w', v => p.misfit v
  | _, v => m.value true v

end Place

end Dataflow
