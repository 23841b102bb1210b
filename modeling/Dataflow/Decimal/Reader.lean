import Dataflow.Decimal.Binary
import Dataflow.Text.Basic

/-!
# Reading numbers

The grammar of a number: an optional sign, then `inf`, `infinity` or (without a sign) `nan` in any
case; or decimal digits with an optional point and exponent; or `0x`, hexadecimal digits with an
optional point, and a binary exponent.  Single underscores may stand between digits, and after
`0x`.
-/

namespace Dataflow

inductive NumberFault where
  | malformed
  | outOfRange
deriving DecidableEq

namespace NumberReader

/-- The digits of a number as read: their value, how many stand after the point, whether there were
any, whether an underscore was passed, and the rest of the text. -/
structure Digits where
  value : Nat
  places : Nat
  any : Bool
  underscores : Bool
  rest : List UInt8

/-- Reads digits of a base below seventeen with at most one point. -/
def readDigits (base : Nat) (pointSeen : Bool) (d : Digits) : List UInt8 → Digits
  | [] => { d with rest := [] }
  | b :: r =>
    if b = byte '_' then readDigits base pointSeen { d with underscores := true } r
    else if b = byte '.' ∧ pointSeen = false then readDigits base true d r
    else
      match Byte.hexValue? b with
      | some n =>
        if n < base then
          readDigits base pointSeen
            { d with value := d.value * base + n, places := d.places + (if pointSeen then 1 else 0),
                     any := true } r
        else { d with rest := b :: r }
      | none => { d with rest := b :: r }

inductive Mark where
  | start
  | digit
  | underscore
  | other
deriving DecidableEq

/-- Each underscore stands between two digits; `prev` is the mark before. -/
def underscoresFit (hex : Bool) : Mark → List UInt8 → Bool
  | prev, [] => prev ≠ .underscore
  | prev, b :: r =>
    let isDigit := Byte.isDigit b || (hex && (Byte.hexValue? b).isSome)
    if isDigit then underscoresFit hex .digit r
    else if b = byte '_' then prev = .digit && underscoresFit hex .underscore r
    else prev ≠ .underscore && underscoresFit hex .other r

def exponentValue (bs : List UInt8) : Nat :=
  bs.foldl (fun n b => if b = byte '_' then n else if n < 10000 then n * 10 + (b.toNat - 48) else n) 0

def readExponent? (bs : List UInt8) : Option (Int × List UInt8) :=
  let (negative, r) := match bs with
    | 45 :: r => (true, r)
    | 43 :: r => (false, r)
    | r => (false, r)
  match r with
  | [] => none
  | b :: _ =>
    if Byte.isDigit b then
      let isPart (b : UInt8) : Bool := Byte.isDigit b || b == byte '_'
      let e : Int := exponentValue (r.takeWhile isPart)
      some (if negative then -e else e, r.dropWhile isPart)
    else none

/-- The double nearest to `value · 2 ^ e`. -/
def scaleBinary (negative : Bool) (value : Nat) (e : Int) : Float :=
  if value = 0 then Binary.toFloat negative 0 1
  else if 0 ≤ e then
    Binary.toFloat negative (value * Nat.pow 2 (min e 3000).toNat) 1
  else Binary.toFloat negative value (Nat.pow 2 (min (-e).toNat (value.log2 + 3000)))

/-- The double nearest to `value · 10 ^ e`; `value` has `count` digits at most. -/
def scaleDecimal (negative : Bool) (value count : Nat) (e : Int) : Float :=
  if value = 0 then Binary.toFloat negative 0 1
  else if 400 < e then Float64.infinity * (if negative then -1.0 else 1.0)
  else if e + count < -400 then Binary.toFloat negative 0 1
  else if 0 ≤ e then Binary.toFloat negative (value * Nat.pow 10 e.toNat) 1
  else Binary.toFloat negative value (Nat.pow 10 (-e).toNat)

def special? (t : Text) : Option Float :=
  let low := t.toLower
  let (sign, body) := match low.bytes with
    | 45 :: r => (some true, (⟨r⟩ : Text))
    | 43 :: r => (some false, ⟨r⟩)
    | _ => (none, low)
  if body = "inf" ∨ body = "infinity" then
    some (if sign = some true then Float64.negInfinity else Float64.infinity)
  else if sign = none ∧ body = "nan" then some Float64.nan
  else none

def unsigned (t : Text) : Bool × List UInt8 :=
  match t.bytes with
  | 45 :: r => (true, r)
  | 43 :: r => (false, r)
  | r => (false, r)

/-- A hexadecimal mark that has at least one character after it. -/
def afterHexMark? : List UInt8 → Option (List UInt8)
  | 48 :: x :: r => if Byte.toLower x = byte 'x' ∧ r ≠ [] then some r else none
  | _ => none

def ranged (x : Float) : Except NumberFault Float :=
  if x.isInf then .error .outOfRange else .ok x

end NumberReader

open NumberReader in
/-- The number a text spells, rounded to the nearest double. -/
def readFloat (t : Text) : Except NumberFault Float :=
  match special? t with
  | some x => .ok x
  | none =>
    let (negative, body) := unsigned t
    let start : Digits := ⟨0, 0, false, false, []⟩
    match afterHexMark? body with
    | some body =>
      let d := readDigits 16 false start body
      if !d.any then .error .malformed
      else
        match d.rest with
        | p :: r =>
          if Byte.toLower p = byte 'p' then
            match readExponent? r with
            | some (e, []) =>
              if (d.underscores || r.contains (byte '_')) && !underscoresFit true .digit body then
                .error .malformed
              else ranged (scaleBinary negative d.value (e - 4 * d.places))
            | _ => .error .malformed
          else .error .malformed
        | [] => .error .malformed
    | none =>
      let d := readDigits 10 false start body
      if !d.any then .error .malformed
      else
        let fits := !body.contains (byte '_') || underscoresFit false .start body
        match d.rest with
        | [] =>
          if fits then ranged (scaleDecimal negative d.value body.length (-d.places))
          else .error .malformed
        | p :: r =>
          if Byte.toLower p = byte 'e' then
            match readExponent? r with
            | some (e, []) =>
              if fits then ranged (scaleDecimal negative d.value body.length (e - d.places))
              else .error .malformed
            | _ => .error .malformed
          else .error .malformed

end Dataflow
