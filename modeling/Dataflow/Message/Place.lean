import Dataflow.Decimal.Rounded
import Dataflow.Text.Quoted

/-!
# Places in a message

A place in a pattern asks for a value in a certain form.  Its verb is a letter for the form, and
marks, a width and a precision say more.  Here are the forms of truth values, texts, integers and
floating-point numbers; a form that the verb does not name gives `none`.
-/

namespace Dataflow

structure Place where
  verb : Char := 'v'
  width : Option Nat := none
  precision : Option Nat := none
  plus : Bool := false
  minus : Bool := false
  sharp : Bool := false
  space : Bool := false
  zero : Bool := false
  /-- Records show the names of their fields. -/
  names : Bool := false
  /-- Values are written with their types. -/
  typed : Bool := false
deriving DecidableEq

namespace Place

/-- The place with the marks at the front, and what follows them. -/
def ofMarks (bs : List UInt8) : Place × List UInt8 :=
  let isMark (b : UInt8) : Bool :=
    b = byte '#' || b = byte '-' || b = byte '+' || b = 32 || b = byte '0'
  let ms := bs.takeWhile isMark
  ({ sharp := ms.contains 35, minus := ms.contains 45, plus := ms.contains 43,
     space := ms.contains 32, zero := ms.contains 48 }, bs.drop ms.length)

def whole (p : Place) : Place := { p with verb := 'v' }

def padded (p : Place) (t : Text) : Text :=
  let fill := Text.replicate (p.width.getD 0 - t.pieces.length)
    (if p.zero && !p.minus then "0" else " ")
  if p.minus then t ++ fill else fill ++ t

def blankPadded (p : Place) (t : Text) : Text := { p with zero := false }.padded t

def cut (p : Place) (t : Text) : Text :=
  match p.precision with
  | some k => Text.ofPieces (t.pieces.take k)
  | none => t

def bool? (p : Place) (b : Bool) : Option Text :=
  if p.verb = 't' || p.verb = 'v' then some (p.padded (if b then "true" else "false")) else none

def hexText (p : Place) (t : Text) : Text :=
  let bytes := (t.bytes.take (p.precision.getD t.length)).map fun b => (⟨Byte.hex b⟩ : Text)
  let mark : Text := if p.sharp then "0x" else ""
  let whole := if bytes.isEmpty then ("" : Text)
    else mark ++ Text.join (if p.space then " " ++ mark else "") bytes
  p.padded (if p.verb = 'X' then whole.toUpper else whole)

/-- A text in quotes: back quotes where they are asked for and can hold it. -/
def quotedText (p : Place) (t : Text) : Text :=
  let t := p.cut t
  p.padded
    (if p.sharp && t.fitsBackQuotes then "\x60" ++ t ++ "\x60"
      else if p.plus then t.quotedAscii
      else t.quoted)

def text? (p : Place) (t : Text) : Option Text :=
  match p.verb with
  | 'v' => some (if p.typed then p.quotedText t else p.padded (p.cut t))
  | 's' => some (p.padded (p.cut t))
  | 'x' | 'X' => some (p.hexText t)
  | 'q' => some (p.quotedText t)
  | _ => none

def sign (p : Place) (negative : Bool) : Text :=
  if negative then "-" else if p.plus then "+" else if p.space then " " else ""

/-- An integer in a base.  A precision is the least number of digits; zeros fill the width only
without one. -/
def inBase (p : Place) (base : Nat) (negative : Bool) (n : Nat) : Text :=
  if p.precision = some 0 ∧ n = 0 then Text.replicate (p.width.getD 0) " "
  else
    let sign := p.sign negative
    let least := match p.precision with
      | some k => k
      | none => if p.zero && !p.minus then p.width.getD 0 - sign.length else 0
    let ds := Text.padZeros least (String.ofList (Nat.toDigits base n))
    let mark : Text :=
      if !p.sharp then ""
      else if base = 2 then "0b"
      else if base = 16 then "0x"
      else if base = 8 && !ds.startsWith "0" then "0"
      else ""
    let ds := mark ++ ds
    let ds := if p.verb = 'X' then ds.toUpper else ds
    p.blankPadded (sign ++ (if p.verb = 'O' then "0o" else "") ++ ds)

def character (n : Nat) : Char := if n.isValidChar then Char.ofNat n else '�'

def codePoint (p : Place) (n : Nat) : Text :=
  let ds := (Text.ofHex (max 4 (p.precision.getD 0)) n).toUpper
  let shown : Text :=
    if p.sharp && n.isValidChar && Text.isPrintable (Char.ofNat n)
      then " '" ++ Text.ofChar (Char.ofNat n) ++ "'" else ""
  p.blankPadded ("U+" ++ ds ++ shown)

/-- An integer; one that is negative stands for a large number where a character is asked for. -/
def integer? (p : Place) (signed : Bool) (n : Int) : Option Text :=
  let code := (n % (Nat.pow 2 64 : Nat)).toNat
  let inBase (base : Nat) := some (p.inBase base (n < 0) n.natAbs)
  match p.verb with
  | 'v' => if p.typed && !signed then some ({ p with sharp := true }.inBase 16 false n.natAbs)
    else inBase 10
  | 'd' => inBase 10
  | 'b' => inBase 2
  | 'o' | 'O' => inBase 8
  | 'x' | 'X' => inBase 16
  | 'c' => some (p.padded (Text.ofChar (character code)))
  | 'q' => some (p.padded (Text.quotedSingle p.plus (character code)))
  | 'U' => some (p.codePoint code)
  | _ => none

/-- Gives a number its point and, where digits are counted, the zeros up to the count. -/
def withPoint (hex : Bool) (count : Nat) (t : Text) : Text :=
  let isMark (b : UInt8) : Bool :=
    b == byte 'p' || b == byte 'P' || (!hex && (b == byte 'e' || b == byte 'E'))
  let digits := t.takeWhile (!isMark ·)
  let tail := t.drop digits.length
  let bare : Text := ⟨digits.bytes.filter (· != byte '.')⟩
  let written := (bare.dropWhile (· == byte '0')).length
  let pointed := digits.contains "."
  let written := if !pointed && digits = "0" then 1 else written
  digits ++ (if pointed then "" else ".") ++ Text.replicate (count - written) "0" ++ tail

/-- A number written as a text with a sign in front, with the sign and the width as asked. -/
def signed (p : Place) (negative : Bool) (t : Text) : Text :=
  let sign := p.sign negative
  if p.zero && !p.minus then sign ++ Text.padZeros (p.width.getD 0 - sign.length) t
  else p.padded (sign ++ t)

def form? (verb : Char) : Option (NumberForm × Option Nat) :=
  match verb with
  | 'v' | 'g' | 'G' => some (.general, none)
  | 'b' => some (.binary, none)
  | 'x' | 'X' => some (.hexadecimal, none)
  | 'e' | 'E' => some (.exponent, some 6)
  | 'f' | 'F' => some (.fixed, some 6)
  | _ => none

def finite? (p : Place) (f : BinaryFormat) (b : Binary) : Option Text := do
  let (form, precision) ← form? p.verb
  let t := b.inForm f form (p.precision <|> precision)
  let t := if p.verb = 'G' || p.verb = 'X' || p.verb = 'E' then t.toUpper else t
  let counted := form = .general || p.verb = 'x'
  let t := if p.sharp && form ≠ .binary then
      withPoint (form = .hexadecimal) (if counted then p.precision.getD 6 else 0) t
    else t
  return p.signed b.negative t

/-- A number that is not finite: `infinite` tells its sign, unless it is no number at all. -/
def nonFinite? (p : Place) (infinite : Option Bool) : Option Text := do
  let _ ← form? p.verb
  return p.blankPadded (match infinite with
    | some negative =>
      (if negative then "-" else if p.space && !p.plus then " " else "+") ++ "Inf"
    | none => p.sign false ++ "NaN")

def float? (p : Place) (x : Float) : Option Text :=
  if x.isNaN then p.nonFinite? none
  else if x.isInf then p.nonFinite? (some (Float64.isNegative x))
  else p.finite? .double (Binary.ofFloat x)

def float32? (p : Place) (x : Float32) : Option Text :=
  if x.isNaN then p.nonFinite? none
  else if x.isInf then p.nonFinite? (some (0x80000000 ≤ x.toBits))
  else p.finite? .single (Binary.ofFloat32 x)

/-- A complex number; its imaginary part always has a sign. -/
def complex? (p : Place) (re im : Float) : Option Text := do
  return "(" ++ (← p.float? re) ++ (← { p with plus := true }.float? im) ++ "i)"

end Place

end Dataflow
