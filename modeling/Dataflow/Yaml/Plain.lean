import Dataflow.Moment.Text
import Dataflow.Decimal.Reader
import Dataflow.Value.Basic

/-!
# What scalars stand for

A plain scalar is a number, a truth value, nothing or a moment if it looks like one, and a text
otherwise.  A tag says what a scalar has to be; one that is not known leaves the text as it is.
-/

namespace Dataflow.Yaml

def digits? (base : Nat) (bs : List UInt8) : Option Nat :=
  if bs.isEmpty then none
  else bs.foldlM (fun n b => do
    let d ← Byte.hexValue? b
    if d < base then some (n * base + d) else none) 0

/-- An unsigned integer in the base that its first digits name: `0x`, `0o` or `0`, `0b`, or ten. -/
def natural? (bs : List UInt8) : Option Nat :=
  match bs with
  | [48] => some 0
  | 48 :: m :: ds =>
    let mark := Byte.toLower m
    if mark = byte 'x' then digits? 16 ds
    else if mark = byte 'o' then digits? 8 ds
    else if mark = byte 'b' then digits? 2 ds
    else digits? 8 (m :: ds)
  | ds => digits? 10 ds

/-- An integer with an optional sign; a value beyond 64 bits has none. -/
def integer? (t : Text) : Option Value :=
  let (negative, ds) := NumberReader.unsigned t
  match natural? ds with
  | none => none
  | some n =>
    let k : Int := if negative then -n else n
    match Integer64.ofInt? k with
    | some i => some (.int i)
    | none => if ds = t.bytes && n < UInt64.size then some (.sized .u64 n) else none

def signedInside? (t : Text) : Option Value :=
  let read? (base : Nat) (t : Text) : Option Value := do
    let (negative, ds) := NumberReader.unsigned t
    let n ← digits? base ds
    return .int (← Integer64.ofInt? (if negative then -n else n))
  ((t.after? "0b").bind (read? 2)).or ((t.after? "0o").bind (read? 8))

def isDecimal (t : Text) : Bool :=
  let digits (bs : List UInt8) := (bs.takeWhile Byte.isDigit, bs.dropWhile Byte.isDigit)
  let (_, bs) := NumberReader.unsigned t
  let (whole, rest) := digits bs
  let (fits, rest) := match rest with
    | 46 :: r => let (f, r) := digits r; (!(whole.isEmpty && f.isEmpty), r)
    | r => (!whole.isEmpty, r)
  fits && match rest with
    | [] => true
    | e :: r =>
      let r := match r with
        | 43 :: r => r
        | 45 :: r => r
        | r => r
      Byte.toLower e = byte 'e' && !r.isEmpty && r.all Byte.isDigit

/-! ### Moments -/

def zone? (bs : List UInt8) : Option Zone :=
  match bs with
  | [90] => some .universal
  | sign :: rest => do
    let (hours, rest) ← Moment.digits? 2 rest
    let rest ← Moment.after? ':' rest
    let (minutes, rest) ← Moment.digits? 2 rest
    if !rest.isEmpty || 24 < hours || 60 < minutes then none
    let n : Int := hours * 60 + minutes
    if sign = byte '+' || sign = byte '-' then
      return if n = 0 then .here else .ahead (if sign = byte '-' then -n else n)
    else none
  | [] => none

/-- A date with a time of day and a zone, a date with a time of day, or a date. -/
def stamp? (t : Text) : Option Stamp := do
  let (year, bs) ← Moment.digits? 4 t.bytes
  let bs ← Moment.after? '-' bs
  let (month, bs) ← Moment.hour? bs
  let bs ← Moment.after? '-' bs
  let (day, bs) ← Moment.hour? bs
  if month = 0 || 12 < month || day = 0 || Moment.daysIn year month < day then none
  let date : Moment := { year, month, day }
  match bs with
  | [] => return ⟨date, .universal⟩
  | sep :: bs =>
    let (hour, bs) ← Moment.hour? (if sep = byte ' ' then bs.dropWhile (· = byte ' ') else bs)
    let bs ← Moment.after? ':' bs
    let (minute, bs) ← Moment.hour? bs
    let bs ← Moment.after? ':' bs
    let (second, bs) ← Moment.hour? bs
    if 24 ≤ hour || 60 ≤ minute || 60 ≤ second then none
    let (nanos, bs) := Moment.fraction bs
    let m := { date with hour, minute, second, nanos }
    if sep = byte ' ' then
      if bs.isEmpty then return ⟨m, .universal⟩ else none
    else if sep = byte 'T' || sep = byte 't' then return ⟨m, ← zone? bs⟩
    else none

/-! ### Values -/

def word? (t : Text) : Option Value :=
  let words : List (Value × List Text) :=
    [(.null, ["", "~", "null", "Null", "NULL"]),
     (.bool true, ["true", "True", "TRUE"]), (.bool false, ["false", "False", "FALSE"]),
     (.float Float64.nan, [".nan", ".NaN", ".NAN"]),
     (.float Float64.infinity, [".inf", ".Inf", ".INF", "+.inf", "+.Inf", "+.INF"]),
     (.float Float64.negInfinity, ["-.inf", "-.Inf", "-.INF"])]
  (words.find? (·.2.contains t)).map Prod.fst

/-- What a text stands for that starts like a number.  A decimal with leading zeros that is no octal
number is a decimal after all. -/
def numberValue (moments : Bool) (t : Text) : Value :=
  match if moments then stamp? t else none with
  | some s => .stamp s
  | none =>
    let bare := t.replaceAll "_" ""
    let float? : Option Value := if isDecimal bare then (readFloat bare).toOption.map .float else none
    (((integer? bare).or float?).or (signedInside? bare)).getD (.text t)

def plainValue (moments : Bool) (t : Text) : Value :=
  match word? t, t.bytes with
  | some v, _ => v
  | none, [] => .null
  | none, b :: _ =>
    if b = byte '.' then ((readFloat t).toOption.map Value.float).getD (.text t)
    else if Byte.isDigit b || b = byte '+' || b = byte '-' then numberValue moments t
    else .text t

def tagOf : Value → Text
  | .null => "!!null"
  | .bool _ => "!!bool"
  | .int _ | .sized _ _ => "!!int"
  | .float _ => "!!float"
  | .stamp _ => "!!timestamp"
  | _ => "!!str"

def shortTag (t : Text) : Text :=
  match t.after? "tag:yaml.org,2002:" with
  | some r => "!!" ++ r
  | none => t

def letterValue? (b : UInt8) : Option Nat :=
  if Byte.isUpper b then some (b.toNat - 65)
  else if Byte.isLower b then some (b.toNat - 71)
  else if Byte.isDigit b then some (b.toNat + 4)
  else if b = byte '+' then some 62
  else if b = byte '/' then some 63
  else none

def base64? : List UInt8 → Option (List UInt8)
  | [] => some []
  | [a, b, 61, 61] => do
    let m ← letterValue? a
    let n ← letterValue? b
    return [(m * 4 + n / 16).toUInt8]
  | [a, b, c, 61] => do
    let m ← letterValue? a
    let n ← letterValue? b
    let o ← letterValue? c
    return [(m * 4 + n / 16).toUInt8, (n % 16 * 16 + o / 4).toUInt8]
  | a :: b :: c :: d :: rest => do
    let m ← letterValue? a
    let n ← letterValue? b
    let o ← letterValue? c
    let p ← letterValue? d
    let more ← base64? rest
    return (m * 4 + n / 16).toUInt8 :: (n % 16 * 16 + o / 4).toUInt8 :: (o % 4 * 64 + p).toUInt8 :: more
  | _ => none

def checkedTags : List Text := ["!!bool", "!!int", "!!float", "!!null", "!!timestamp"]

def scalarValue? (tag t : Text) : Option Value :=
  if tag = "!!binary" then
    (base64? (t.bytes.filter fun b => b ≠ 10 && b ≠ 13)).map fun bs => .text ⟨bs⟩
  else if checkedTags.contains tag then
    let v := plainValue (tag = "!!timestamp") t
    if tag = tagOf v then some v
    else match v with
      | .int n => if tag = "!!float" then some (.float (Float64.ofInt n.toInt)) else none
      | _ => none
  else some (.text t)

end Dataflow.Yaml
