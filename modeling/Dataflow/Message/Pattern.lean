import Dataflow.Message.Value

/-!
# Messages with places for values

`formatMessage` fills the places of a pattern.  A place starts with a per cent sign and ends with its
verb; between them stand marks, a width, a precision and, in brackets, the numbers of the values it
takes.  A width or precision may be a value itself.  Without numbers the places take the values one
after the other.  A place that cannot be filled, and values that no place took, are reported inside
the message.
-/

namespace Dataflow

namespace Pattern

/-- Which value is next: the one after the last, the one of a number counted from one, or one that
cannot be told. -/
inductive Choice where
  | next
  | numbered (n : Nat)
  | unclear
deriving DecidableEq

def Choice.isNumbered : Choice → Bool
  | numbered _ => true
  | _ => false

/-- A width or precision: none, a number, or the next value. -/
inductive Extent where
  | none
  | number (n : Nat)
  | fromValue
deriving DecidableEq

def Extent.isFromValue : Extent → Bool
  | fromValue => true
  | _ => false

/-- A place as it is written: up to three choices of values, and no verb if the pattern ends before
it. -/
structure Slot where
  place : Place
  first : Choice
  width : Extent
  second : Choice
  precision : Option Extent
  third : Choice
  complete : Bool
deriving DecidableEq

inductive Part where
  | literal (b : UInt8)
  | slot (s : Slot)
deriving DecidableEq

/-- The number at the front, after the number read so far.  After one beyond a million nothing is
read any more. -/
def numberFrom (seen : Option Nat) : List UInt8 → Option Nat × List UInt8
  | [] => (seen, [])
  | b :: r =>
    let n := seen.getD 0
    if !Byte.isDigit b then (seen, b :: r)
    else if 1000000 < n then (none, [])
    else numberFrom (some (n * 10 + (b - byte '0').toNat)) r

def choice : List UInt8 → Choice × List UInt8
  | b :: r =>
    if b != byte '[' then (.next, b :: r)
    else if r.length < 2 then (.unclear, r)
    else
      let inside := r.takeWhile (· != byte ']')
      match r.drop inside.length with
      | [] => (.unclear, r)
      | _ :: rest =>
        match numberFrom none inside with
        | (some n, []) => (.numbered n, rest)
        | _ => (.unclear, rest)
  | [] => (.next, [])

def extent : List UInt8 → Extent × List UInt8
  | b :: r =>
    if b == byte '*' then (.fromValue, r)
    else match numberFrom none (b :: r) with
      | (some n, rest) => (.number n, rest)
      | (none, rest) => (.none, rest)
  | [] => (.none, [])

def pointed (bytes : List UInt8) : Choice × Option Extent × List UInt8 :=
  match bytes with
  | b :: r =>
    if b == byte '.' then
      let (c, r) := choice r
      let (e, r) := extent r
      (c, some e, r)
    else (.next, none, b :: r)
  | [] => (.next, none, [])

/-- The place after a per cent sign.  A choice stands right before what takes the value, so after a
choice that neither width nor precision took no other one follows. -/
def slot (bytes : List UInt8) : Slot × List UInt8 :=
  let (p, r) := Place.ofMarks bytes
  let (first, r) := choice r
  let (width, r) := extent r
  let (second, precision, r) := pointed r
  let held := match precision with
    | none => first.isNumbered && !width.isFromValue
    | some e => second.isNumbered && !e.isFromValue
  let (third, r) := if held then (Choice.next, r) else choice r
  let (verb, size) := (Text.firstChar? r).getD ('�', 1)
  (⟨{ p with verb }, first, width, second, precision, third, !r.isEmpty⟩, r.drop size)

def partsAfter : Nat → List UInt8 → List Part
  | _, [] => []
  | k + 1, _ :: r => partsAfter k r
  | 0, b :: r =>
    if b == byte '%' then
      let (s, rest) := slot r
      .slot s :: partsAfter (r.length - rest.length) r
    else .literal b :: partsAfter 0 r

/-- The number of the next value, and whether places chose values by number. -/
structure Turn where
  next : Nat := 0
  reordered : Bool := false
  good : Bool := true

def Turn.follow (t : Turn) (count : Nat) : Choice → Turn
  | .next => t
  | .unclear => { t with reordered := true, good := false }
  | .numbered n =>
    if 1 ≤ n ∧ n ≤ count then { t with reordered := true, next := n - 1 }
    else { t with reordered := true, good := false }

/-- The integer that the next value gives, if it is one and no larger than a million. -/
def extentOf (args : List Value) (t : Turn) : Option Int × Turn :=
  match args[t.next]? with
  | none => (none, t)
  | some v =>
    let n : Option Int := match v with
      | .int n => some n.toInt
      | .sized _ n => some n
      | _ => none
    (n.filter fun n => n.natAbs ≤ 1000000, { t with next := t.next + 1 })

/-- Gives the place its width; what goes wrong is written in front of it. -/
def giveWidth (args : List Value) (p : Place) (t : Turn) : Extent → Text × Place × Turn
  | .none => ("", p, t)
  | .number n => ("", { p with width := some n }, t)
  | .fromValue =>
    match extentOf args t with
    | (none, t) => ("%!(BADWIDTH)", p, t)
    | (some n, t) =>
      if n < 0 then ("", { p with width := some n.natAbs, minus := true, zero := false }, t)
      else ("", { p with width := some n.natAbs }, t)

def givePrecision (args : List Value) (p : Place) (t : Turn) : Option Extent → Text × Place × Turn
  | none => ("", p, t)
  | some .none => ("", { p with precision := some 0 }, t)
  | some (.number n) => ("", { p with precision := some n }, t)
  | some .fromValue =>
    match extentOf args t with
    | (some n, t) =>
      if n < 0 then ("%!(BADPREC)", p, t) else ("", { p with precision := some n.natAbs }, t)
    | (none, t) => ("%!(BADPREC)", p, t)

/-- The marks `#` and `+` as they are meant for a value as it is: types and names. -/
def meant (p : Place) : Place :=
  if p.verb = 'v' || p.verb = 'w' then
    { p with typed := p.sharp, sharp := false, names := p.plus, plus := false }
  else p

def fillSlot (args : List Value) (s : Slot) (t : Turn) : Text × Turn :=
  let count := args.length
  let t := { t with good := true }.follow count s.first
  let misplaced := s.first.isNumbered && (match s.width with
    | .number _ => true
    | .none => s.precision.isSome
    | .fromValue => false)
  let t := { t with good := t.good && !misplaced }
  let (w, p, t) := giveWidth args s.place t s.width
  let t := t.follow count s.second
  let (q, p, t) := givePrecision args p t s.precision
  let t := t.follow count s.third
  let (text, t) : Text × Turn :=
    if !s.complete then ("%!(NOVERB)", t)
    else if p.verb = '%' then ("%", t)
    else if !t.good then (Place.report p.verb "BADINDEX", t)
    else match args[t.next]? with
      | none => (Place.report p.verb "MISSING", t)
      | some v => ((meant p).fill v, { t with next := t.next + 1 })
  (w ++ q ++ text, t)

def leftOver (args : List Value) (t : Turn) : Text :=
  if t.reordered || args.length ≤ t.next then ""
  else
    "%!(EXTRA " ++ Text.join ", " ((args.drop t.next).map fun v => match v with
      | .null => "<nil>"
      | v => v.typeName ++ "=" ++ Place.fill {} v) ++ ")"

def fillParts (args : List Value) : List Part → Turn → Text
  | [], t => leftOver args t
  | .literal b :: ps, t => ⟨[b]⟩ ++ fillParts args ps t
  | .slot s :: ps, t =>
    let (text, t) := fillSlot args s t
    text ++ fillParts args ps t

end Pattern

def formatMessage (pattern : Text) (args : List Value) : Text :=
  Pattern.fillParts args (Pattern.partsAfter 0 pattern.bytes) {}

end Dataflow
