import Dataflow.Text.Basic

/-!
# Reading text as Unicode characters

`Text.pieces` reads a byte string from left to right as UTF-8.  A well-formed sequence is one
character; a byte that starts none stands alone.  Nothing is lost: the bytes of the pieces are the
bytes of the text.
-/

namespace Dataflow

/-- A character, or a byte that belongs to no character. -/
inductive Piece where
  | char (c : Char)
  | stray (b : UInt8)
deriving DecidableEq

namespace Piece

def bytes : Piece → List UInt8
  | char c => String.utf8EncodeChar c
  | stray b => [b]

def toChar : Piece → Char
  | char c => c
  | stray _ => '�'

def char? : Piece → Option Char
  | char c => some c
  | stray _ => none

end Piece

namespace Text

/-- A continuation byte of UTF-8. -/
def isTail (b : UInt8) : Bool := 0x80 ≤ b && b ≤ 0xBF

def firstChar? : List UInt8 → Option (Char × Nat)
  | [] => none
  | a :: r =>
    let low (b : UInt8) : Nat := b.toNat % 64
    if a < 0x80 then some (Char.ofNat a.toNat, 1)
    else if a < 0xC2 then none
    else if a < 0xE0 then
      match r with
      | b :: _ => if isTail b then some (Char.ofNat ((a.toNat - 0xC0) * 64 + low b), 2) else none
      | _ => none
    else if a < 0xF0 then
      match r with
      | b :: c :: _ =>
        let fits := isTail b && isTail c && !(a == 0xE0 && b < 0xA0) && !(a == 0xED && 0xA0 ≤ b)
        if fits then some (Char.ofNat ((a.toNat - 0xE0) * 4096 + low b * 64 + low c), 3) else none
      | _ => none
    else if a < 0xF5 then
      match r with
      | b :: c :: d :: _ =>
        let fits := isTail b && isTail c && isTail d && !(a == 0xF0 && b < 0x90)
          && !(a == 0xF4 && 0x90 ≤ b)
        if fits then
          some (Char.ofNat ((a.toNat - 0xF0) * 262144 + low b * 4096 + low c * 64 + low d), 4)
        else none
      | _ => none
    else none

def piecesAfter : Nat → List UInt8 → List Piece
  | _, [] => []
  | k + 1, _ :: r => piecesAfter k r
  | 0, b :: r =>
    match firstChar? (b :: r) with
    | some (c, n) => .char c :: piecesAfter (n - 1) r
    | none => .stray b :: piecesAfter 0 r

def pieces (t : Text) : List Piece := piecesAfter 0 t.bytes

def ofPieces (ps : List Piece) : Text := ⟨ps.flatMap Piece.bytes⟩

/-- The characters of a text, each stray byte read as the replacement character. -/
def chars (t : Text) : List Char := t.pieces.map Piece.toChar

def toString? (t : Text) : Option String :=
  (t.pieces.mapM Piece.char?).map String.ofList

/-- The text as a string, each stray byte shown as the replacement character. -/
def display (t : Text) : String := String.ofList t.chars

/-- White space: the ASCII blanks, the two Latin-1 ones and the Unicode space separators. -/
def isBlank (c : Char) : Bool :=
  let n := c.toNat
  (9 ≤ n && n ≤ 13) || n == 0x20 || n == 0x85 || n == 0xA0 || n == 0x1680
    || (0x2000 ≤ n && n ≤ 0x200A) || n == 0x2028 || n == 0x2029 || n == 0x202F || n == 0x205F
    || n == 0x3000

def isBlankPiece : Piece → Bool
  | .char c => isBlank c
  | .stray _ => false

def trimLeft (t : Text) : Text := ofPieces (t.pieces.dropWhile isBlankPiece)

def trimRight (t : Text) : Text :=
  ofPieces (t.pieces.reverse.dropWhile isBlankPiece).reverse

def trim (t : Text) : Text := t.trimLeft.trimRight

/-- The character that stands for all characters equal to it up to case, where one of them is an
ASCII letter: the long s and the kelvin sign fold to letters. -/
def foldChar (c : Char) : Char :=
  if c == 'ſ' then 's' else if c.toNat == 0x212A then 'k' else c.toLower

/-- Equality without regard to the case of letters, exact when one side is ASCII. -/
def sameFold (a b : Text) : Bool := a.chars.map foldChar == b.chars.map foldChar

end Text

end Dataflow
