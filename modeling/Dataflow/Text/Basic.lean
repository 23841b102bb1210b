/-!
# Text as a sequence of bytes

Identifiers, labels and cells of the programs handled here are byte strings: they may hold bytes
that are no UTF-8, and some rules cut them between the bytes of one character.  `Text` is such a
byte string.  Literals are written as ordinary strings, which coerce to their UTF-8 bytes.
-/

namespace Dataflow

structure Text where
  bytes : List UInt8
deriving DecidableEq, Inhabited

namespace Text

def ofString (s : String) : Text := ⟨s.toByteArray.data.toList⟩

instance : Coe String Text := ⟨ofString⟩

instance : Append Text := ⟨fun a b => ⟨a.bytes ++ b.bytes⟩⟩

@[simp] theorem bytes_append (a b : Text) : (a ++ b).bytes = a.bytes ++ b.bytes := rfl

@[ext] theorem ext {a b : Text} (h : a.bytes = b.bytes) : a = b := by
  cases a; cases b; simp_all

def empty : Text := ⟨[]⟩

instance : EmptyCollection Text := ⟨empty⟩

def isEmpty (t : Text) : Bool := t.bytes.isEmpty

def orElse (t other : Text) : Text := if t.isEmpty then other else t

def length (t : Text) : Nat := t.bytes.length

def ofChar (c : Char) : Text := ⟨String.utf8EncodeChar c⟩

def ofChars (cs : List Char) : Text := ⟨cs.flatMap String.utf8EncodeChar⟩

def ofNat (n : Nat) : Text := toString n

/-- The decimal text of an integer, with a minus sign below zero. -/
def ofInt (n : Int) : Text := toString n

def concat (parts : List Text) : Text := ⟨parts.flatMap bytes⟩

def join (sep : Text) : List Text → Text
  | [] => empty
  | p :: ps => p ++ concat (ps.map (sep ++ ·))

def lines (parts : List Text) : Text := concat (parts.map (· ++ "\n"))

def replicate (n : Nat) (t : Text) : Text := concat (List.replicate n t)

def take (n : Nat) (t : Text) : Text := ⟨t.bytes.take n⟩

def drop (n : Nat) (t : Text) : Text := ⟨t.bytes.drop n⟩

def padZeros (n : Nat) (t : Text) : Text := replicate (n - t.length) "0" ++ t

def leBytes : List UInt8 → List UInt8 → Bool
  | [], _ => true
  | _ :: _, [] => false
  | a :: as, b :: bs => a < b || (a == b && leBytes as bs)

def le (a b : Text) : Bool := leBytes a.bytes b.bytes

def lt (a b : Text) : Bool := !le b a

/-- Texts in ascending byte order; equal texts stay. -/
def sort (ts : List Text) : List Text := ts.mergeSort le

def startsWith (t head : Text) : Bool := head.bytes.isPrefixOf t.bytes

def endsWith (t tail : Text) : Bool := tail.bytes.isSuffixOf t.bytes

/-- What follows `head`, if the bytes start with it. -/
def afterBytes : List UInt8 → List UInt8 → Option (List UInt8)
  | [], r => some r
  | _ :: _, [] => none
  | a :: as, b :: bs => if a = b then afterBytes as bs else none

def after? (t head : Text) : Option Text := (afterBytes head.bytes t.bytes).map Text.mk

def stripEnd (t tail : Text) : Text :=
  if t.endsWith tail then t.take (t.length - tail.length) else t

def cutBytes (sep : List UInt8) : List UInt8 → Option (List UInt8 × List UInt8)
  | [] => if sep.isEmpty then some ([], []) else none
  | b :: r =>
    match afterBytes sep (b :: r) with
    | some rest => some ([], rest)
    | none => (cutBytes sep r).map fun (h, rest) => (b :: h, rest)

/-- The parts before and after the first occurrence of `sep`, if there is one. -/
def cut? (t sep : Text) : Option (Text × Text) :=
  (cutBytes sep.bytes t.bytes).map fun (h, r) => (⟨h⟩, ⟨r⟩)

def contains (t part : Text) : Bool := (t.cut? part).isSome

def cutLast? (t : Text) (b : UInt8) : Option (Text × Text) :=
  let tail := t.bytes.reverse.takeWhile (· ≠ b)
  if tail.length = t.length then none
  else some (t.take (t.length - tail.length - 1), ⟨tail.reverse⟩)

/-- Splits at every occurrence of `sep`; the first argument counts the bytes of an occurrence still
to be passed, the second holds the current part in reverse. -/
def splitBytes (sep : List UInt8) : Nat → List UInt8 → List UInt8 → List (List UInt8)
  | _, part, [] => [part.reverse]
  | k + 1, part, _ :: r => splitBytes sep k part r
  | 0, part, b :: r =>
    if sep.isPrefixOf (b :: r) then part.reverse :: splitBytes sep (sep.length - 1) [] r
    else splitBytes sep 0 (b :: part) r

def split (t sep : Text) : List Text := (splitBytes sep.bytes 0 [] t.bytes).map Text.mk

def replaceAll (t old new : Text) : Text := join new (t.split old)

def any (t : Text) (p : UInt8 → Bool) : Bool := t.bytes.any p

def all (t : Text) (p : UInt8 → Bool) : Bool := t.bytes.all p

def dropWhile (t : Text) (p : UInt8 → Bool) : Text := ⟨t.bytes.dropWhile p⟩

def dropEndWhile (t : Text) (p : UInt8 → Bool) : Text :=
  ⟨(t.bytes.reverse.dropWhile p).reverse⟩

def takeWhile (t : Text) (p : UInt8 → Bool) : Text := ⟨t.bytes.takeWhile p⟩

end Text

def byte (c : Char) : UInt8 := c.val.toUInt8

namespace Byte

def isDigit (b : UInt8) : Bool := byte '0' ≤ b && b ≤ byte '9'

def isLower (b : UInt8) : Bool := byte 'a' ≤ b && b ≤ byte 'z'

def isUpper (b : UInt8) : Bool := byte 'A' ≤ b && b ≤ byte 'Z'

def toLower (b : UInt8) : UInt8 := if isUpper b then b + 32 else b

def toUpper (b : UInt8) : UInt8 := if isLower b then b - 32 else b

def hexValue? (b : UInt8) : Option Nat :=
  if isDigit b then some (b.toNat - 48)
  else if byte 'a' ≤ b && b ≤ byte 'f' then some (b.toNat - 87)
  else if byte 'A' ≤ b && b ≤ byte 'F' then some (b.toNat - 55)
  else none

def hexDigit (n : Nat) : UInt8 := if n < 10 then (48 + n).toUInt8 else (87 + n).toUInt8

def hex (b : UInt8) : List UInt8 := [hexDigit (b.toNat / 16), hexDigit (b.toNat % 16)]

end Byte

namespace Text

def toLower (t : Text) : Text := ⟨t.bytes.map Byte.toLower⟩

def toUpper (t : Text) : Text := ⟨t.bytes.map Byte.toUpper⟩

def ofHex (width n : Nat) : Text := padZeros width (String.ofList (Nat.toDigits 16 n))

def toNat? (t : Text) : Option Nat :=
  if t.isEmpty || !t.all Byte.isDigit then none
  else some (t.bytes.foldl (fun n b => n * 10 + (b.toNat - 48)) 0)

def toInt? (t : Text) : Option Int :=
  match t.bytes with
  | 45 :: r => (toNat? ⟨r⟩).map fun n => -(n : Int)
  | 43 :: r => (toNat? ⟨r⟩).map fun n => (n : Int)
  | _ => t.toNat?.map fun n => (n : Int)

end Text

end Dataflow
