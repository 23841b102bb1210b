import Dataflow.Value.Describe
import Dataflow.Text.Scalar

/-!
# Documents

`Json` is a document with its object members in the order they are written.  `Json.print` writes it
on one line, `Json.printIndented` over many with two blanks a level.  Inside texts, quotes,
backslashes and control characters are escaped, the two line separators too, and, unless markup is
kept, the three characters that matter to markup; a stray byte is written as the
replacement character.

`Value.toJson?` is the document of a value.  Numbers that are not finite, functions and numerals
that are no JSON numbers have none.
-/

namespace Dataflow

inductive Json where
  | null
  | bool (b : Bool)
  | number (t : Text)
  | text (t : Text)
  | array (xs : List Json)
  | object (members : List (Text × Json))

namespace Json

def ofNat (n : Nat) : Json := number (Text.ofNat n)

def ofInt (n : Int) : Json := number (Text.ofInt n)

def ofTexts (ts : List Text) : Json := array (ts.map text)

def membersWith (members : List (Text × Json)) (leftOut : Bool) (key : Text) (j : Json) :
    List (Text × Json) :=
  if leftOut then members else members ++ [(key, j)]

def escapePiece (markup : Bool) : Piece → Text
  | .stray _ => "�"
  | .char c =>
    let n := c.toNat
    if c == '"' then "\\\""
    else if c == '\\' then "\\\\"
    else if n == 8 then "\\b"
    else if n == 12 then "\\f"
    else if n == 10 then "\\n"
    else if n == 13 then "\\r"
    else if n == 9 then "\\t"
    else if n < 0x20 || n == 0x2028 || n == 0x2029 then "\\u" ++ Text.ofHex 4 n
    else if markup && (c == '<' || c == '>' || c == '&') then "\\u" ++ Text.ofHex 4 n
    else Text.ofChar c

/-- A text between quotes; with `markup`, the characters of markup are escaped. -/
def quote (markup : Bool) (t : Text) : Text :=
  "\"" ++ Text.concat (t.pieces.map (escapePiece markup)) ++ "\""

mutual

def write (markup : Bool) : Json → Text
  | null => "null"
  | bool b => if b then "true" else "false"
  | number t => t
  | text t => quote markup t
  | array xs => "[" ++ Text.join "," (writeAll markup xs) ++ "]"
  | object ms => "\x7b" ++ Text.join "," (writeMembers markup ms) ++ "\x7d"

def writeAll (markup : Bool) : List Json → List Text
  | [] => []
  | x :: xs => write markup x :: writeAll markup xs

def writeMembers (markup : Bool) : List (Text × Json) → List Text
  | [] => []
  | (k, x) :: ms => (quote markup k ++ ":" ++ write markup x) :: writeMembers markup ms

end

mutual

/-- The document with the replacement character for each stray byte, as a reader of it sees it. -/
def displayed : Json → Json
  | text t => text (Text.ofString t.display)
  | array xs => array (displayedAll xs)
  | object ms => object (displayedMembers ms)
  | j => j

def displayedAll : List Json → List Json
  | [] => []
  | x :: xs => displayed x :: displayedAll xs

def displayedMembers : List (Text × Json) → List (Text × Json)
  | [] => []
  | (k, x) :: ms => (Text.ofString k.display, displayed x) :: displayedMembers ms

end

def print (j : Json) : Text := j.write true

def indent (n : Nat) : Text := "\n" ++ Text.replicate n "  "

mutual

def writeIndented (markup : Bool) (depth : Nat) : Json → Text
  | array [] => "[]"
  | object [] => "\x7b\x7d"
  | array xs =>
    "[" ++ Text.join "," (writeIndentedAll markup (depth + 1) xs) ++ indent depth ++ "]"
  | object ms =>
    "\x7b" ++ Text.join "," (writeIndentedMembers markup (depth + 1) ms) ++ indent depth ++ "\x7d"
  | null => "null"
  | bool b => if b then "true" else "false"
  | number t => t
  | text t => quote markup t

def writeIndentedAll (markup : Bool) (depth : Nat) : List Json → List Text
  | [] => []
  | x :: xs =>
    (indent depth ++ writeIndented markup depth x) :: writeIndentedAll markup depth xs

def writeIndentedMembers (markup : Bool) (depth : Nat) : List (Text × Json) → List Text
  | [] => []
  | (k, x) :: ms =>
    (indent depth ++ quote markup k ++ ": " ++ writeIndented markup depth x)
      :: writeIndentedMembers markup depth ms

end

def printIndented (j : Json) : Text := j.writeIndented true 0

def isNumber (t : Text) : Bool :=
  let digits (bs : List UInt8) := (bs.takeWhile Byte.isDigit, bs.dropWhile Byte.isDigit)
  let bs := match t.bytes with
    | 45 :: r => r
    | r => r
  let (whole, r) := digits bs
  let wholeFits := match whole with
    | [] => false
    | [_] => true
    | d :: _ => d != byte '0'
  let (fractionFits, r) := match r with
    | 46 :: r => let (f, r) := digits r; (!f.isEmpty, r)
    | r => (true, r)
  let exponentFits := match r with
    | [] => true
    | e :: r =>
      let r := match r with
        | 43 :: r => r
        | 45 :: r => r
        | r => r
      let (ds, rest) := digits r
      (e == byte 'e' || e == byte 'E') && !ds.isEmpty && rest.isEmpty
  wholeFits && fractionFits && exponentFits

end Json

namespace Value

def floatJson? (x : Float) : Option Json :=
  if x.isFinite then some (.number (NumberStyle.document.float x)) else none

def memberName? : Value → Option Text
  | text t | named _ t => some t
  | int n => some (Text.ofInt n.toInt)
  | sized _ n => some (Text.ofInt n)
  | float x => if x.isFinite then some (NumberStyle.document.float x) else none
  | stamp s => s.document?
  | _ => none

mutual

def toJson? : Value → Option Json
  | null | noList | noRow | noReference _ _ => some .null
  | bool b => some (.bool b)
  | text t | named _ t => some (.text t)
  | stamp s => s.document?.map .text
  | float x => floatJson? x
  | int n => some (.ofInt n.toInt)
  | sized _ n => some (.ofInt n)
  | single x => if x.isFinite then some (.number (NumberStyle.document.float32 x)) else none
  | numeral t =>
    if t.isEmpty then some (.number "0") else if Json.isNumber t then some (.number t) else none
  | complex _ _ => none
  | list xs | sequence _ xs => (toJsonAll? xs).map .array
  | row fields | lexicon _ _ fields | record _ fields => (toJsonFields? fields).map .object
  | dictionary _ entries => (toJsonEntries? entries).map fun ms => .object (Fields.sorted ms)
  | reference _ _ v => toJson? v
  | error _ _ => some (.object [])
  | func _ | closure _ _ _ | fold _ | foldClosure _ _ | noFunc _ => none

def toJsonAll? : List Value → Option (List Json)
  | [] => some []
  | v :: vs => do
    let j ← toJson? v
    let js ← toJsonAll? vs
    return j :: js

def toJsonFields? : List (Text × Value) → Option (List (Text × Json))
  | [] => some []
  | (k, v) :: fs => do
    let j ← toJson? v
    let js ← toJsonFields? fs
    return (k, j) :: js

def toJsonEntries? : List (Value × Value) → Option (List (Text × Json))
  | [] => some []
  | (k, v) :: es => do
    let name ← memberName? k
    let j ← toJson? v
    let js ← toJsonEntries? es
    return (name, j) :: js

end

end Value

end Dataflow
