import Dataflow.Text.Scalar

/-!
# Texts and comments

A text stands between quotes, on one line, or between three quotes, over several.  Between double
quotes a backslash starts an escape; between single quotes everything stands for itself.  Control
characters, tabs apart, and stray bytes may stand neither in texts nor in comments.
-/

namespace Dataflow.Toml

def isControl (b : UInt8) : Bool := (b < 0x20 && b ≠ 9) || b = 0x7F

def whole? (bs : List UInt8) : Option Text :=
  let t : Text := ⟨bs⟩
  if t.toString?.isSome then some t else none

def skipBlanks (bs : List UInt8) : List UInt8 := bs.dropWhile fun b => b = 32 || b = 9

def afterNewline? : List UInt8 → Option (List UInt8)
  | 10 :: r => some r
  | 13 :: 10 :: r => some r
  | _ => none

def afterComment? (bs : List UInt8) : Option (List UInt8) :=
  let line := bs.takeWhile fun b => b = 9 || !isControl b
  let rest := bs.drop line.length
  match whole? line, rest with
  | some _, [] => some []
  | some _, 10 :: _ => some rest
  | some _, 13 :: 10 :: _ => some rest
  | _, _ => none

def codePoint? (count : Nat) (bs : List UInt8) : Option (Char × List UInt8) := do
  let digits ← (bs.take count).mapM Byte.hexValue?
  let n := digits.foldl (fun n d => n * 16 + d) 0
  if digits.length = count && n.isValidChar then return (Char.ofNat n, bs.drop count) else none

def escape? : List UInt8 → Option (List UInt8 × List UInt8)
  | [] => none
  | b :: r =>
    let one (c : UInt8) : Option (List UInt8 × List UInt8) := some ([c], r)
    let point (count : Nat) : Option (List UInt8 × List UInt8) :=
      (codePoint? count r).map fun (c, r) => (String.utf8EncodeChar c, r)
    if b = byte '"' || b = byte '\\' then one b
    else if b = byte 'b' then one 8
    else if b = byte 't' then one 9
    else if b = byte 'n' then one 10
    else if b = byte 'f' then one 12
    else if b = byte 'r' then one 13
    else if b = byte 'e' then one 27
    else if b = byte 'u' then point 4
    else if b = byte 'U' then point 8
    else none

/-- The bytes up to the closing quote on the same line, and what follows; `acc` holds those before,
the last one first, and `fuel` bounds the steps. -/
def line? (quote : UInt8) : Nat → List UInt8 → List UInt8 → Option (List UInt8 × List UInt8)
  | 0, _, _ => none
  | _, _, [] => none
  | fuel + 1, acc, b :: r =>
    if b = quote then some (acc.reverse, r)
    else if isControl b then none
    else if b = byte '\\' && quote = byte '"' then do
      let (cs, r) ← escape? r
      line? quote fuel (cs.reverse ++ acc) r
    else line? quote fuel (b :: acc) r

/-- The rest of a text after a backslash that joins lines: the next thing that is not blank. -/
def joined? (bs : List UInt8) : Option (List UInt8) :=
  (afterNewline? (skipBlanks bs)).map fun r => r.dropWhile fun b =>
    b = 32 || b = 9 || b = 10 || b = 13

/-- The bytes up to three closing quotes, and what follows; up to two quotes before these belong to
the text. -/
def block? (quote : UInt8) : Nat → List UInt8 → List UInt8 → Option (List UInt8 × List UInt8)
  | 0, _, _ => none
  | _, _, [] => none
  | fuel + 1, acc, b :: r =>
    if b = quote then
      let run := (b :: r).takeWhile (· = quote)
      let rest := (b :: r).drop run.length
      if 6 ≤ run.length then none
      else if 3 ≤ run.length then some (acc.reverse ++ run.drop 3, rest)
      else block? quote fuel (run ++ acc) rest
    else if b = byte '\\' && quote = byte '"' then
      match joined? r with
      | some r => block? quote fuel acc r
      | none => do
        let (cs, r) ← escape? r
        block? quote fuel (cs.reverse ++ acc) r
    else if b = 10 then block? quote fuel (b :: acc) r
    else if b = 13 then
      match r with
      | 10 :: r => block? quote fuel (10 :: 13 :: acc) r
      | _ => none
    else if isControl b then none
    else block? quote fuel (b :: acc) r

def lineText? (quote : UInt8) (bs : List UInt8) : Option (Text × List UInt8) := do
  let (cs, r) ← line? quote (bs.length + 1) [] bs
  return (← whole? cs, r)

/-- A text after its opening quote: one on a line or, after two more quotes, one over lines.  The
end of a line right after these is no part of the text. -/
def text? (quote : UInt8) (bs : List UInt8) : Option (Text × List UInt8) :=
  match Text.afterBytes [quote, quote] bs with
  | some r => do
    let (cs, r) ← block? quote (r.length + 1) [] ((afterNewline? r).getD r)
    return (← whole? cs, r)
  | none => lineText? quote bs

end Dataflow.Toml
