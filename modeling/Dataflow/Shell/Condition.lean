import Dataflow.Shell.Sum

/-!
# Conditions

What a list of words says of texts, numbers and files.  Words are read as operators only where they
can be; with three words, a comparison in the middle comes first.
-/

namespace Dataflow.Shell.Condition

inductive Kind where
  | unary
  | comparison
  | conjunction
  | disjunction
  | negation
  | opening
  | closing
  | operand
deriving DecidableEq

def kindOf (t : Text) : Kind :=
  let unary : List Text :=
    ("-r -w -x -e -f -d -c -b -p -u -g -k -s -t -z -n -h -O -G -L -S" : Text).split " "
  let binary : List Text := ("= != < > -eq -ne -ge -gt -le -lt -nt -ot -ef" : Text).split " "
  if unary.contains t then .unary
  else if binary.contains t then .comparison
  else if t = "-a" then .conjunction
  else if t = "-o" then .disjunction
  else if t = "!" then .negation
  else if t = "(" then .opening
  else if t = ")" then .closing
  else .operand

/-- What the first word is, with regard to those after it; none if there is none. -/
def kind? : List Text → Option Kind
  | [] => none
  | t :: rest =>
    match kindOf t with
    | .unary =>
      match rest with
      | [] => some .operand
      | [_] => some .unary
      | next :: _ :: _ => if kindOf next = .comparison then some .operand else some .unary
    | .opening => if rest.isEmpty then some .operand else some .opening
    | k => some k

def integer (t : Text) : Except Text Int64 :=
  let trimmed := (t.dropWhile isSpace).dropEndWhile isSpace
  let isSmall (n : Int) : Bool := Int64.minValue.toInt ≤ n && n ≤ Int64.maxValue.toInt
  match trimmed.toInt?.filter isSmall with
  | some n => .ok (Int64.ofInt n)
  | none => .error ("Illegal number: " ++ t)

def compare (op a b : Text) : Except Text Bool :=
  if op = "=" then .ok (a = b)
  else if op = "!=" then .ok (a ≠ b)
  else if op = "<" then .ok (a.lt b)
  else if op = ">" then .ok (b.lt a)
  else if op = "-nt" || op = "-ot" || op = "-ef" then .ok false
  else do
    let m ← integer a
    let n ← integer b
    return if op = "-eq" then m = n
      else if op = "-ne" then m ≠ n
      else if op = "-ge" then n ≤ m
      else if op = "-gt" then n < m
      else if op = "-le" then m ≤ n
      else m < n

variable (files : Text → Text → Bool)

def inspect (op t : Text) : Except Text Bool :=
  if op = "-z" then .ok t.isEmpty
  else if op = "-n" then .ok (!t.isEmpty)
  else if op = "-t" then (integer t).map fun _ => false
  else .ok (files op t)

mutual

/-- A condition of several, one of which has to hold.  The rest begins with the last word that was
read. -/
def anyOf : Nat → List Text → Except Text (Bool × List Text)
  | 0, ts => .ok (false, ts)
  | fuel + 1, ts => do
    let (a, ts) ← allOf fuel ts
    if kind? (ts.drop 1) = some .disjunction then
      let (b, ts) ← anyOf fuel (ts.drop 2)
      return (a || b, ts)
    else return (a, ts)

def allOf : Nat → List Text → Except Text (Bool × List Text)
  | 0, ts => .ok (false, ts)
  | fuel + 1, ts => do
    let (a, ts) ← negated fuel ts
    if kind? (ts.drop 1) = some .conjunction then
      let (b, ts) ← allOf fuel (ts.drop 2)
      return (a && b, ts)
    else return (a, ts)

def negated : Nat → List Text → Except Text (Bool × List Text)
  | 0, ts => .ok (false, ts)
  | fuel + 1, ts =>
    if kind? ts = some .negation then do
      let (a, ts) ← negated fuel (ts.drop 1)
      return (!a, ts)
    else single fuel ts

def single : Nat → List Text → Except Text (Bool × List Text)
  | 0, ts => .ok (false, ts)
  | fuel + 1, ts =>
    match kind? ts, ts with
    | none, _ => .ok (false, ts)
    | some .opening, _ :: rest =>
      if kind? rest = some .closing then .ok (false, rest)
      else do
        let (a, ts) ← anyOf fuel rest
        if kind? (ts.drop 1) = some .closing then return (a, ts.drop 1)
        else .error "closing paren expected"
    | some .unary, op :: rest =>
      match rest with
      | [] => .error (op ++ ": argument expected")
      | t :: _ => (inspect files op t).map (·, rest)
    | _, t :: op :: rest =>
      if kind? (op :: rest) = some .comparison then
        match rest with
        | [] => .error (op ++ ": argument expected")
        | b :: _ => (compare op t b).map (·, rest)
      else .ok (!t.isEmpty, ts)
    | _, [t] => .ok (!t.isEmpty, ts)
    | _, [] => .ok (false, ts)

end

def finish (ts : List Text) : Except Text Bool := do
  let (a, rest) ← anyOf files (4 * (ts.length + 4)) ts
  match rest with
  | t :: _ :: _ => .error (t ++ ": unexpected operator")
  | _ => return a

def holds : List Text → Except Text Bool
  | [] => .ok false
  | [a, op, b] =>
    if kindOf op = .comparison then compare op a b
    else if a = "(" && b = ")" then finish files [op]
    else if a = "!" then (finish files [op, b]).map (!·)
    else finish files [a, op, b]
  | [a, b, c, d] =>
    if a = "(" && d = ")" then finish files [b, c]
    else if a = "!" then (holds [b, c, d]).map (!·)
    else finish files [a, b, c, d]
  | ts => finish files ts

end Dataflow.Shell.Condition
