import Dataflow.Decimal.Reader
import Dataflow.Value.Basic

/-!
# Numbers, dates and times

What stands without quotes and is no truth value: integers in four bases, numbers with a point or an
exponent, infinities, and dates and times of day, with a zone or without.  An underscore may stand
between two digits.  A date or time without a zone counts as one of this place.
-/

namespace Dataflow.Toml

/-! ### Integers and floating-point numbers -/

/-- Whether every underscore stands between two digits of an integer, which may have a sign. -/
def underscoresFit (bs : List UInt8) : Bool :=
  let body := (NumberReader.unsigned ⟨bs⟩).2
  body.isEmpty || (Text.split ⟨body⟩ "_").all fun part => !part.isEmpty

def inBase? (base : Nat) (bs : List UInt8) : Option Int := do
  if !underscoresFit bs then none
  let digits ← (bs.filter (· ≠ byte '_')).mapM Byte.hexValue?
  if digits.isEmpty || digits.any (base ≤ ·) then none
  let n := digits.foldl (fun n d => n * base + d) 0
  if n < Nat.pow 2 63 then return n else none

def integer? (bs : List UInt8) : Option Int :=
  match bs with
  | 48 :: m :: r =>
    if m = byte 'x' then inBase? 16 r
    else if m = byte 'o' then inBase? 8 r
    else if m = byte 'b' then inBase? 2 r
    else none
  | _ => do
    if !underscoresFit bs then none
    let clean : Text := ⟨bs.filter (· ≠ byte '_')⟩
    let body := (NumberReader.unsigned clean).2
    if 1 < body.length && body.head? = some (byte '0') then none
    let n ← clean.toInt?
    return (← Integer64.ofInt? n).toInt

/-- Whether the underscores of a number stand between digits: neither at an end nor beside a sign, a
point or an exponent. -/
def floatUnderscoresFit (bs : List UInt8) : Bool :=
  let isMark (b : UInt8) : Bool := b = byte '.' || b = byte 'e' || b = byte 'E'
  let fits (i : Nat) : Bool :=
    let before := bs[i - 1]?
    let after := bs[i + 1]?
    0 < i && i + 1 < bs.length
      && !before.any (fun b => isMark b || b = byte '+' || b = byte '-' || b = byte '_')
      && !after.any isMark
  (List.range bs.length).all fun i => bs[i]? ≠ some (byte '_') || fits i

def pointFits (bs : List UInt8) : Bool :=
  match (⟨bs⟩ : Text).split "." with
  | [_] => true
  | [a, b] => a.bytes.getLast?.any Byte.isDigit && b.bytes.head?.any Byte.isDigit
  | _ => false

def float? (bs : List UInt8) : Option Float :=
  let t : Text := ⟨bs⟩
  if t = "+nan" || t = "-nan" then some Float64.nan
  else
    let clean := bs.filter (· ≠ byte '_')
    let body := (NumberReader.unsigned ⟨clean⟩).2
    let padded := body.head? = some (byte '0') && (body[1]?).any Byte.isDigit
    if floatUnderscoresFit bs && pointFits clean && !padded then (readFloat ⟨clean⟩).toOption
    else none

def number? (bs : List UInt8) : Option (Value × List UInt8) :=
  let integer (n : Nat) : Option (Value × List UInt8) :=
    (integer? (bs.take n)).map fun k => (.sized .i64 k, bs.drop n)
  let float (n : Nat) : Option (Value × List UInt8) :=
    (float? (bs.take n)).map fun x => (.float x, bs.drop n)
  let isPart (b : UInt8) : Bool :=
    Byte.isDigit b || [byte '+', byte '-', byte '_', byte '.', byte 'e', byte 'E'].contains b
  let marked : Option Nat := match bs with
    | 48 :: m :: r =>
      let digits (base : Nat) : Option Nat := some (2 + (r.takeWhile fun b =>
        b = byte '_' || (Byte.hexValue? b).any (· < base)).length)
      if r.isEmpty || m = byte '.' || m = byte 'e' || m = byte 'E' then none
      else if m = byte 'x' then digits 16
      else if m = byte 'o' then digits 8
      else if m = byte 'b' then digits 2
      else some 1
    | _ => none
  match marked with
  | some n => integer n
  | none =>
    let run := bs.takeWhile isPart
    let rest := bs.drop run.length
    let word (w : Text) : Bool := (Text.afterBytes w.bytes rest).isSome
    if rest.head? = some (byte 'i') || rest.head? = some (byte 'n') then
      if word "inf" || word "nan" then float (run.length + 3) else none
    else if run.any fun b => b = byte '.' || b = byte 'e' || b = byte 'E' then float run.length
    else integer run.length

/-! ### Dates and times -/

/-- A time of day at the front, with seconds; decimals beyond the ninth are dropped. -/
def timePart? (m : Moment) (bs : List UInt8) : Option (Moment × List UInt8) := do
  let (hour, bs) ← Moment.digits? 2 bs
  let bs ← Moment.after? ':' bs
  let (minute, bs) ← Moment.digits? 2 bs
  let bs ← Moment.after? ':' bs
  let (second, bs) ← Moment.digits? 2 bs
  if 23 < hour || 59 < minute || 60 < second then none
  match bs with
  | 46 :: r =>
    let ds := r.takeWhile Byte.isDigit
    let nanos ← (⟨ds.take 9⟩ : Text).toNat?
    return ({ m with hour, minute, second, nanos := nanos * Nat.pow 10 (9 - ds.length) },
      r.drop ds.length)
  | _ => return ({ m with hour, minute, second }, bs)

def zone? (bs : List UInt8) : Option Zone :=
  match bs with
  | [] => some .here
  | [b] => if b = byte 'Z' || b = byte 'z' then some .universal else none
  | b :: r => do
    let (hours, r) ← Moment.digits? 2 r
    let r ← Moment.after? ':' r
    let (minutes, r) ← Moment.digits? 2 r
    if !r.isEmpty || 23 < hours || 59 < minutes then none
    let n : Int := hours * 60 + minutes
    if n = 0 && (b = byte '+' || b = byte '-') then return .universal
    else if b = byte '+' then return .ahead n
    else if b = byte '-' then return .ahead (-n)
    else none

def stamp? (bs : List UInt8) : Option Stamp :=
  match Moment.after? ':' (bs.drop 2) with
  | some _ => do
    let (m, r) ← timePart? { year := 0, month := 1, day := 1 } bs
    if r.isEmpty then return ⟨m, .here⟩ else none
  | none => do
    let (m, r) ← Moment.datePart? bs
    match r with
    | [] => return ⟨m, .here⟩
    | b :: r =>
      if b = byte 'T' || b = byte 't' || b = byte ' ' then
        let (m, r) ← timePart? m r
        return ⟨m, ← zone? r⟩
      else none

/-- The number of bytes that may belong to a date or time; one blank may stand before a digit. -/
def stampLength : List UInt8 → Nat
  | [] => 0
  | b :: r =>
    if Byte.isDigit b || [byte '-', byte '+', byte ':', byte '.', byte 'T', byte 't', byte 'Z',
      byte 'z'].contains b then 1 + stampLength r
    else 0

def stampBytes (bs : List UInt8) : List UInt8 × List UInt8 :=
  let n := stampLength bs
  match bs.drop n with
  | 32 :: d :: r =>
    if Byte.isDigit d then
      let n := n + 2 + stampLength r
      (bs.take n, bs.drop n)
    else (bs.take n, bs.drop n)
  | rest => (bs.take n, rest)

/-- Whether the front is a date or a time: it has a colon after two digits or a dash after four. -/
def startsStamp (bs : List UInt8) : Bool :=
  let n := (bs.takeWhile Byte.isDigit).length
  (n = 2 && bs[2]? = some (byte ':')) || (n = 4 && bs[4]? = some (byte '-'))

def scalar? (bs : List UInt8) : Option (Value × List UInt8) :=
  if startsStamp bs then
    let (front, rest) := stampBytes bs
    (stamp? front).map fun s => (.stamp s, rest)
  else number? bs

end Dataflow.Toml
