import Dataflow.Json.Basic
import Dataflow.Decimal.Reader

/-!
# Reading documents

`Json.read?` accepts exactly one document with white space around it, unless it is too deep.  Inside
texts, stray bytes and lone surrogates become the replacement character.  `Json.toValue?` is the
value of a document: its numbers become doubles, and one that is too large has no value.
-/

namespace Dataflow.Json

def isSpace (b : UInt8) : Bool := b == 32 || b == 9 || b == 10 || b == 13

def skipSpace (bs : List UInt8) : List UInt8 := bs.dropWhile isSpace

def hex4? : List UInt8 → Option (Nat × List UInt8)
  | a :: b :: c :: d :: r => do
    let a ← Byte.hexValue? a
    let b ← Byte.hexValue? b
    let c ← Byte.hexValue? c
    let d ← Byte.hexValue? d
    return (((a * 16 + b) * 16 + c) * 16 + d, r)
  | _ => none

def lowSurrogate? : List UInt8 → Option (Nat × List UInt8)
  | 92 :: 117 :: r =>
    match hex4? r with
    | some (n, r) => if 0xDC00 ≤ n ∧ n < 0xE000 then some (n, r) else none
    | none => none
  | _ => none

def unicodeEscape? (bs : List UInt8) : Option (List UInt8 × List UInt8) := do
  let (n, r) ← hex4? bs
  if 0xD800 ≤ n ∧ n < 0xDC00 then
    match lowSurrogate? r with
    | some (m, r) =>
      return (String.utf8EncodeChar (Char.ofNat (0x10000 + (n - 0xD800) * 1024 + (m - 0xDC00))), r)
    | none => return (String.utf8EncodeChar '�', r)
  else if 0xDC00 ≤ n ∧ n < 0xE000 then return (String.utf8EncodeChar '�', r)
  else return (String.utf8EncodeChar (Char.ofNat n), r)

def letterEscape? (b : UInt8) : Option UInt8 :=
  if b = byte '"' ∨ b = byte '\\' ∨ b = byte '/' then some b
  else if b = byte 'b' then some 8
  else if b = byte 'f' then some 12
  else if b = byte 'n' then some 10
  else if b = byte 'r' then some 13
  else if b = byte 't' then some 9
  else none

/-- The bytes of a text up to its closing quote, and what follows; `fuel` bounds the steps. -/
def readText : Nat → List UInt8 → List UInt8 → Option (List UInt8 × List UInt8)
  | 0, _, _ => none
  | fuel + 1, acc, bs =>
    match bs with
    | [] => none
    | 34 :: r => some (acc.reverse, r)
    | 92 :: 117 :: r =>
      match unicodeEscape? r with
      | some (cs, r) => readText fuel (cs.reverse ++ acc) r
      | none => none
    | 92 :: b :: r =>
      match letterEscape? b with
      | some c => readText fuel (c :: acc) r
      | none => none
    | b :: r => if b < 32 then none else readText fuel (b :: acc) r

/-- A text with every stray byte replaced. -/
def sanitize (bs : List UInt8) : Text := Text.ofChars (Text.chars ⟨bs⟩)

def isNumberByte (b : UInt8) : Bool :=
  Byte.isDigit b || b == byte '-' || b == byte '+' || b == byte '.' || b == byte 'e'
    || b == byte 'E'

mutual

/-- A document at the front, and what follows it; `fuel` bounds the depth and the steps. -/
def readValue : Nat → List UInt8 → Option (Json × List UInt8)
  | 0, _ => none
  | fuel + 1, bs =>
    match skipSpace bs with
    | [] => none
    | 34 :: r => (readText (r.length + 1) [] r).map fun (t, r) => (text (sanitize t), r)
    | 91 :: r =>
      match skipSpace r with
      | 93 :: r => some (array [], r)
      | r => (readElements fuel r).map fun (xs, r) => (array xs, r)
    | 123 :: r =>
      match skipSpace r with
      | 125 :: r => some (object [], r)
      | r => (readMembers fuel r).map fun (ms, r) => (object ms, r)
    | b :: r =>
      let word (w : Text) (j : Json) : Option (Json × List UInt8) :=
        (Text.afterBytes w.bytes (b :: r)).map fun r => (j, r)
      if b = byte 't' then word "true" (bool true)
      else if b = byte 'f' then word "false" (bool false)
      else if b = byte 'n' then word "null" null
      else
        let digits := (b :: r).takeWhile isNumberByte
        if isNumber ⟨digits⟩ then some (number ⟨digits⟩, (b :: r).dropWhile isNumberByte) else none

def readElements : Nat → List UInt8 → Option (List Json × List UInt8)
  | 0, _ => none
  | fuel + 1, bs =>
    match readValue fuel bs with
    | none => none
    | some (x, r) =>
      match skipSpace r with
      | 93 :: r => some ([x], r)
      | 44 :: r => (readElements fuel r).map fun (xs, r) => (x :: xs, r)
      | _ => none

def readMembers : Nat → List UInt8 → Option (List (Text × Json) × List UInt8)
  | 0, _ => none
  | fuel + 1, bs =>
    match skipSpace bs with
    | 34 :: r =>
      match readText (r.length + 1) [] r with
      | none => none
      | some (key, r) =>
        match skipSpace r with
        | 58 :: r =>
          match readValue fuel r with
          | none => none
          | some (x, r) =>
            match skipSpace r with
            | 125 :: r => some ([(sanitize key, x)], r)
            | 44 :: r => (readMembers fuel r).map fun (ms, r) => ((sanitize key, x) :: ms, r)
            | _ => none
        | _ => none
    | _ => none

end

mutual

/-- How deep arrays and objects stand in one another. -/
def depth : Json → Nat
  | array xs => depthAll xs + 1
  | object ms => depthMembers ms + 1
  | _ => 0

def depthAll : List Json → Nat
  | [] => 0
  | x :: xs => max (depth x) (depthAll xs)

def depthMembers : List (Text × Json) → Nat
  | [] => 0
  | (_, x) :: ms => max (depth x) (depthMembers ms)

end

def maxDepth : Nat := 10000

/-- The document a text holds, if it holds exactly one and that one is not too deep. -/
def read? (t : Text) : Option Json :=
  match readValue (2 * t.length + 2) t.bytes with
  | some (j, r) => if (skipSpace r).isEmpty && j.depth ≤ maxDepth then some j else none
  | none => none

mutual

def toValue? : Json → Option Value
  | null => some .null
  | bool b => some (.bool b)
  | number t =>
    match readFloat t with
    | .ok x => some (.float x)
    | .error _ => none
  | text t => some (.text t)
  | array xs => (toValues? xs).map .list
  | object ms => (toFields? ms).map fun fs => .row (Fields.ofList fs)

def toValues? : List Json → Option (List Value)
  | [] => some []
  | x :: xs => do
    let v ← toValue? x
    let vs ← toValues? xs
    return v :: vs

def toFields? : List (Text × Json) → Option (List (Text × Value))
  | [] => some []
  | (k, x) :: ms => do
    let v ← toValue? x
    let fs ← toFields? ms
    return (k, v) :: fs

end

mutual

def asWritten : Json → Value
  | null => .null
  | bool b => .bool b
  | number t => .numeral t
  | text t => .text t
  | array xs => .list (asWrittenAll xs)
  | object ms => .row (Fields.ofList (asWrittenFields ms))

def asWrittenAll : List Json → List Value
  | [] => []
  | x :: xs => asWritten x :: asWrittenAll xs

def asWrittenFields : List (Text × Json) → List (Text × Value)
  | [] => []
  | (k, x) :: ms => (k, asWritten x) :: asWrittenFields ms

end

end Dataflow.Json
