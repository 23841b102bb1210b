import Dataflow.Shell.Command

/-!
# Expressions of a shell

Integers of 64 bits with the usual operators, variables and assignments.  `Sum.evaluate` gives the
value of an expression and the variables it sets.
-/

namespace Dataflow.Shell

inductive Sum where
  | number (n : Int64)
  | parameter (name : Text)
  | unary (op : Text) (a : Sum)
  | binary (op : Text) (a b : Sum)
  | choice (test yes no : Sum)
  /-- Sets a variable, to the result of an operator on it if there is one. -/
  | assign (name : Text) (op : Option Text) (a : Sum)

namespace Sum

def digits (bs : List UInt8) : Nat × List UInt8 :=
  let read (base : Nat) (bs : List UInt8) : Nat × List UInt8 :=
    let isDigit (b : UInt8) : Bool := (Byte.hexValue? b).any (· < base)
    ((bs.takeWhile isDigit).foldl (fun n b => n * base + (Byte.hexValue? b).getD 0) 0,
      bs.dropWhile isDigit)
  match bs with
  | 48 :: x :: d :: rest =>
    if (x = byte 'x' || x = byte 'X') && (Byte.hexValue? d).isSome then read 16 (d :: rest)
    else read 8 bs
  | 48 :: _ => read 8 bs
  | _ => read 10 bs

def integer? (t : Text) : Option Int64 :=
  let bs := t.bytes.dropWhile isSpace
  let negative := bs.head? = some 45
  let signed := negative || bs.head? = some 43
  let (n, rest) := digits (if signed then bs.drop 1 else bs)
  let n : Int := if negative then -n else n
  if rest.all isSpace && (rest.length < bs.length || bs.isEmpty) && Int64.minValue.toInt ≤ n
      && n ≤ Int64.maxValue.toInt then some (Int64.ofInt n)
  else none

inductive Token where
  | number (n : Int64)
  | name (t : Text)
  | sign (t : Text)
deriving DecidableEq

def signs : List Text :=
  (">>= <<= == != >= >> <= << && &= || |= ^= += -= *= /= %= = ! > < & | ^ + - * / % ~ ( ) ? :" :
    Text).split " "

def tokens : Nat → List UInt8 → List Token
  | 0, _ => []
  | _, [] => []
  | fuel + 1, b :: rest =>
    if b = 32 || b = 9 || b = 10 then tokens fuel rest
    else if Byte.isDigit b then
      let (n, rest) := digits (b :: rest)
      .number (Int64.ofInt (min n Int64.maxValue.toInt)) :: tokens fuel rest
    else if isNameByte b then
      .name ⟨(b :: rest).takeWhile isNameByte⟩ :: tokens fuel (rest.dropWhile isNameByte)
    else
      match signs.findSome? fun s => (Text.afterBytes s.bytes (b :: rest)).map (s, ·) with
      | some (s, rest) => .sign s :: tokens fuel rest
      | none => [.sign "bad"]

def strength? (op : Text) : Option Nat :=
  let levels : List (List Text) :=
    [["||"], ["&&"], ["|"], ["^"], ["&"], ["==", "!="], ["<", "<=", ">", ">="], ["<<", ">>"],
     ["+", "-"], ["*", "/", "%"]]
  levels.findIdx? (·.contains op)

def assignment? (op : Text) : Option (Option Text) :=
  let ops : List Text := [">>", "<<", "&", "|", "^", "+", "-", "*", "/", "%"]
  if op = "=" then some none
  else (ops.find? fun o => o ++ "=" = op).map some

abbrev Reader := StateT (List Token) (Except Text)

def took (sign : Text) : Reader Bool := modifyGet fun ts =>
  if ts.head? = some (.sign sign) then (true, ts.drop 1) else (false, ts)

def expect (sign : Text) : Reader Unit := do
  if !(← took sign) then throw ("expecting '" ++ sign ++ "'")

def primary : Reader Sum := throw ("expecting primary" : Text)

mutual

def whole : Nat → Reader Sum
  | 0 => primary
  | fuel + 1 => do
    match ← get with
    | .name x :: .sign op :: rest =>
      match assignment? op with
      | some op =>
        set rest
        return .assign x op (← whole fuel)
      | none => chosen fuel
    | _ => chosen fuel

def chosen : Nat → Reader Sum
  | 0 => primary
  | fuel + 1 => do
    let test ← combined fuel 0 (← single fuel)
    if ← took "?" then
      let yes ← whole fuel
      expect ":"
      return .choice test yes (← chosen fuel)
    else return test

def combined : Nat → Nat → Sum → Reader Sum
  | 0, _, _ => primary
  | fuel + 1, least, a => do
    match ← get with
    | .sign op :: rest =>
      match (strength? op).filter (least ≤ ·) with
      | some n =>
        set rest
        let b ← combined fuel (n + 1) (← single fuel)
        combined fuel least (.binary op a b)
      | none => return a
    | _ => return a

def single : Nat → Reader Sum
  | 0 => primary
  | fuel + 1 => do
    let next := (← get).head?
    modify (·.drop 1)
    match next with
    | some (.number n) => return .number n
    | some (.name x) => return .parameter x
    | some (.sign s) =>
      if s = "(" then
        let a ← whole fuel
        expect ")"
        return a
      else if s = "+" || s = "-" || s = "!" || s = "~" then return .unary s (← single fuel)
      else primary
    | none => primary

end

def read? (t : Text) : Except Text Sum := do
  let ts := tokens t.length t.bytes
  let (a, rest) ← (whole (8 * (ts.length + 8))).run ts
  if rest.isEmpty then return a else .error "expecting EOF"

def truth (b : Bool) : Int64 := if b then 1 else 0

/-- A number shifted by a count, of which only the last six bits matter. -/
def shifted (left : Bool) (a b : Int64) : Int64 :=
  let n : Int64 := b % 64
  let n := if n < 0 then n + 64 else n
  if left then a <<< n else a >>> n

inductive Fault where
  | form (reason : Text)
  | number (t : Text)

def operate (op : Text) (a b : Int64) : Except Fault Int64 :=
  if op = "+" then .ok (a + b)
  else if op = "-" then .ok (a - b)
  else if op = "*" then .ok (a * b)
  else if (op = "/" || op = "%") && b = 0 then .error (.form "division by zero")
  else if op = "/" then .ok (a / b)
  else if op = "%" then .ok (a % b)
  else if op = "<<" then .ok (shifted true a b)
  else if op = ">>" then .ok (shifted false a b)
  else if op = "&" then .ok (a &&& b)
  else if op = "|" then .ok (a ||| b)
  else if op = "^" then .ok (a ^^^ b)
  else if op = "==" then .ok (truth (a = b))
  else if op = "!=" then .ok (truth (a ≠ b))
  else if op = "<" then .ok (truth (a < b))
  else if op = "<=" then .ok (truth (a ≤ b))
  else if op = ">" then .ok (truth (b < a))
  else .ok (truth (b ≤ a))

/-- What an expression knows of variables, given their values: those that it has set come first. -/
abbrev Evaluation := StateT (List (Text × Text)) (Except Fault)

def valueOf (value : Text → Text) (x : Text) : Evaluation Int64 := do
  let t := (((← get).find? (·.1 = x)).map Prod.snd).getD (value x)
  match integer? t with
  | some n => return n
  | none => throw (.number t)

def evaluate (value : Text → Text) : Sum → Evaluation Int64
  | number n => return n
  | parameter x => valueOf value x
  | unary op a => do
    let a ← evaluate value a
    return if op = "-" then -a
      else if op = "!" then truth (a = 0)
      else if op = "~" then ~~~a
      else a
  | binary op a b => do
    let x ← evaluate value a
    if op = "&&" && x = 0 then return 0
    if op = "||" && x ≠ 0 then return 1
    let y ← evaluate value b
    if op = "&&" || op = "||" then return truth (y ≠ 0)
    return ← operate op x y
  | choice test yes no => do
    if (← evaluate value test) = 0 then evaluate value no else evaluate value yes
  | assign x op a => do
    let n ← evaluate value a
    let n ← match op with
      | none => pure n
      | some op => do pure (← operate op (← valueOf value x) n)
    modify ((x, Text.ofInt n.toInt) :: ·)
    return n

end Sum

end Dataflow.Shell
