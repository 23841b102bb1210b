import Dataflow.Shell.Command

/-!
# Patterns

A pattern is a text in which some bytes stand for others: a star for any text, a question mark for
any byte, and brackets for one of a set.  A byte in quotes stands for itself.
-/

namespace Dataflow.Shell

inductive Choice where
  | range (first last : UInt8)
  | kind (name : Text)
deriving DecidableEq

def isOfKind (name : Text) (b : UInt8) : Bool :=
  let letter := Byte.isLower b || Byte.isUpper b
  let shown := 32 < b && b < 127
  if name = "alpha" then letter
  else if name = "digit" then Byte.isDigit b
  else if name = "alnum" then letter || Byte.isDigit b
  else if name = "lower" then Byte.isLower b
  else if name = "upper" then Byte.isUpper b
  else if name = "space" then isSpace b
  else if name = "blank" then b = 32 || b = 9
  else if name = "xdigit" then (Byte.hexValue? b).isSome
  else if name = "punct" then shown && !letter && !Byte.isDigit b
  else if name = "graph" then shown
  else if name = "print" then shown || b = 32
  else if name = "cntrl" then b < 32 || b = 127
  else false

def Choice.allows : Choice → UInt8 → Bool
  | range first last, b => first ≤ b && b ≤ last
  | kind name, b => isOfKind name b

inductive Glob where
  | one (b : UInt8)
  | any
  | many
  | choice (negated : Bool) (choices : List Choice)

namespace Glob

/-- A byte with its meaning: one in quotes stands for itself. -/
abbrev Mark := UInt8 × Bool

def isMark (b : UInt8) (m : Mark) : Bool := m = (b, false)

def kind? (ms : List Mark) : Option (Text × List Mark) :=
  match ms with
  | (91, _) :: (58, _) :: rest =>
    let name := rest.takeWhile fun m => m.1 ≠ 58
    match rest.drop name.length with
    | _ :: (93, _) :: rest => some (⟨name.map Prod.fst⟩, rest)
    | _ => none
  | _ => none

/-- What stands in brackets up to the closing one, and the rest; none if they are not closed. -/
def choices? : Nat → Bool → List Mark → Option (List Choice × List Mark)
  | 0, _, _ => none
  | fuel + 1, first, ms =>
    match kind? ms with
    | some (name, rest) => (choices? fuel false rest).map fun (cs, r) => (.kind name :: cs, r)
    | none =>
      match ms with
      | [] => none
      | m :: rest =>
        if isMark 93 m && !first then some ([], rest)
        else
          let (last, rest) : Mark × List Mark := match rest with
            | dash :: last :: rest' =>
              if isMark 45 dash && !isMark 93 last then (last, rest') else (m, rest)
            | _ => (m, rest)
          (choices? fuel false rest).map fun (cs, r) => (.range m.1 last.1 :: cs, r)

def ofMarks : Nat → List Mark → List Glob
  | 0, _ => []
  | _, [] => []
  | fuel + 1, m :: rest =>
    if isMark 42 m then many :: ofMarks fuel rest
    else if isMark 63 m then any :: ofMarks fuel rest
    else if isMark 91 m then
      let negated := (rest.head?).any fun m => isMark 33 m || isMark 94 m
      match choices? (rest.length + 1) true (if negated then rest.drop 1 else rest) with
      | some (cs, rest) => choice negated cs :: ofMarks fuel rest
      | none => one m.1 :: ofMarks fuel rest
    else one m.1 :: ofMarks fuel rest

def suffixes : List UInt8 → List (List UInt8)
  | [] => [[]]
  | b :: bs => (b :: bs) :: suffixes bs

def fits : List Glob → List UInt8 → Bool
  | [], bs => bs.isEmpty
  | many :: gs, bs => (suffixes bs).any (fits gs)
  | one b :: gs, c :: bs => b = c && fits gs bs
  | any :: gs, _ :: bs => fits gs bs
  | choice negated cs :: gs, c :: bs => (cs.any (·.allows c) != negated) && fits gs bs
  | _ :: _, [] => false

end Glob

def matchesPattern (pattern : List Glob.Mark) (t : Text) : Bool :=
  Glob.fits (Glob.ofMarks pattern.length pattern) t.bytes

def trimPattern (atEnd longest : Bool) (pattern : List Glob.Mark) (t : Text) : Text :=
  let sizes := List.range (t.length + 1)
  let sizes := if longest then sizes.reverse else sizes
  let cut (n : Nat) : Text × Text :=
    if atEnd then (t.drop (t.length - n), t.take (t.length - n)) else (t.take n, t.drop n)
  ((sizes.map cut).find? fun (part, _) => matchesPattern pattern part).elim t Prod.snd

end Dataflow.Shell
