import Dataflow.Value.Basic

/-!
# Keys of maps

A map holds one value under each key.  Numbers of different types are different keys, and a number
that is none, which differs from itself, is always a new one.  In ascending order nothing comes first;
keys of one type stand together.
-/

namespace Dataflow.Value

def sameKey : Value → Value → Bool
  | null, null => true
  | bool a, bool b => a = b
  | text a, text b => a = b
  | int a, int b => a = b
  | sized s a, sized t b => s = t && a = b
  | float a, float b => a == b
  | stamp a, stamp b => a.same b
  | _, _ => false

/-- Whether a value can be a key: lists and maps cannot. -/
def isKey : Value → Bool
  | list _ | noList | row _ | noRow | sequence _ _ | lexicon _ _ _ | dictionary _ _ => false
  | _ => true

def keyRank : Value → Nat
  | null => 0
  | bool _ => 1
  | float _ => 2
  | int _ => 3
  | text _ => 4
  | sized _ _ => 5
  | _ => 6

def keyLe (a b : Value) : Bool :=
  match a, b with
  | bool a, bool b => !a || b
  | float a, float b => a.isNaN || (a ≤ b : Bool)
  | int a, int b => a ≤ b
  | text a, text b => a.le b
  | sized _ a, sized _ b => a ≤ b
  | stamp a, stamp b => a.le b
  | a, b => keyRank a ≤ keyRank b

def putEntry (k v : Value) : List (Value × Value) → List (Value × Value)
  | [] => [(k, v)]
  | (l, w) :: es => if sameKey k l then (l, v) :: es else (l, w) :: putEntry k v es

end Dataflow.Value
