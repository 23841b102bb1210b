import Dataflow.Text.Scalar
import Dataflow.Text.Property

/-!
# Quoted text

`Text.quoted` writes a text between double quotes so that it is printable on one line: quotes and
backslashes are escaped, control characters have their short names or two hexadecimal digits, other
characters that are not printable have four or eight, and a stray byte has two.
-/

namespace Dataflow.Text

def shortEscape? (c : Char) : Option Text :=
  match c.toNat with
  | 7 => some "\\a"
  | 8 => some "\\b"
  | 9 => some "\\t"
  | 10 => some "\\n"
  | 11 => some "\\v"
  | 12 => some "\\f"
  | 13 => some "\\r"
  | _ => none

/-- A character as it stands between quotes; `shown` are the characters that stand for
themselves. -/
def escapedChar (quote : Char) (shown : Char → Bool) (c : Char) : Text :=
  if c == quote || c == '\\' then "\\" ++ ofChar c
  else if shown c then ofChar c
  else
    match shortEscape? c with
    | some t => t
    | none =>
      let n := c.toNat
      if n < 0x20 || n == 0x7F then "\\x" ++ ofHex 2 n
      else if n < 0x10000 then "\\u" ++ ofHex 4 n
      else "\\U" ++ ofHex 8 n

def quotedChar (c : Char) : Text := escapedChar '"' isPrintable c

def quotedPiece : Piece → Text
  | .char c => quotedChar c
  | .stray b => "\\x" ++ ofHex 2 b.toNat

def quoted (t : Text) : Text := "\"" ++ concat (t.pieces.map quotedPiece) ++ "\""

def isPlainAscii (c : Char) : Bool := c.toNat < 0x80 && isPrintable c

/-- The text between double quotes, with everything escaped that is not printable ASCII. -/
def quotedAscii (t : Text) : Text :=
  let piece : Piece → Text
    | .char c => escapedChar '"' isPlainAscii c
    | .stray b => "\\x" ++ ofHex 2 b.toNat
  "\"" ++ concat (t.pieces.map piece) ++ "\""

def quotedSingle (ascii : Bool) (c : Char) : Text :=
  "'" ++ escapedChar (Char.ofNat 39) (if ascii then isPlainAscii else isPrintable) c ++ "'"

/-- Whether a text can stand between back quotes as it is: it is one line of whole characters
without back quotes, control characters and byte order marks. -/
def fitsBackQuotes (t : Text) : Bool :=
  t.pieces.all fun
    | .char c =>
      let n := c.toNat
      (0x20 ≤ n || n == 9) && n != 0x60 && n != 0x7F && n != 0xFEFF
    | .stray _ => false

end Dataflow.Text
