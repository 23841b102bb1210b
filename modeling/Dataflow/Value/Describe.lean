import Dataflow.Value.Basic
import Dataflow.Decimal.Style

/-!
# The text of values

`Value.describe` is the text of a value inside of another: lists in brackets, maps with their entries in
ascending order of keys, records in braces, and references by the text that their type has a way to write
or else by the place they refer to.  `Value.toMessage` is the text of a value on its own, in messages and
cells; a reference to a list, map or record is shown with what it refers to.  `Value.toText?` is the text of
a value as a setting, and `Value.displayable?` the value as a document can hold it: scalars stay, functions
and other values that carry a text become it, and containers are converted element by element.

A reference to nothing of a type that writes its values itself has no text to give; asking it is an error of
the caller, for which the two partial functions give `none`.
-/

namespace Dataflow.Value

def complexText (re im : Float) : Text :=
  let part := NumberStyle.general.float im
  let sign : Text := if part.startsWith "-" || part.startsWith "+" then "" else "+"
  "(" ++ NumberStyle.general.float re ++ sign ++ part ++ "i)"

def address (place : Nat) : Text := "0x" ++ Text.ofChars (Nat.toDigits 16 place)

/-- The text of a value whose type has a way to write it. -/
def ownText? : Value → Option Text
  | numeral t | named _ t | error _ t => some t
  | stamp s => some s.text
  | func f => some f.text
  | fold f => some f.text
  | _ => none

/-- A reference is written like what it refers to, unless that is a reference itself or the variable
takes values of several types. -/
def referredText? (type : Text) (v : Value) : Option Text :=
  if type = v.typeName && !type.startsWith "*" then v.ownText? else none

/-- Lists, maps and records. -/
def isComposite : Value → Bool
  | list _ | noList | row _ | noRow | sequence _ _ | lexicon _ _ _ | dictionary _ _ | record _ _ | func _
  | fold _ => true
  | _ => false

mutual

def describe (names : Bool) : Value → Text
  | null => "<nil>"
  | bool b => if b then "true" else "false"
  | text t | numeral t | named _ t | error _ t => t
  | stamp s => s.text
  | float x => NumberStyle.general.float x
  | int n => Text.ofInt n.toInt
  | sized _ n => Text.ofInt n
  | single x => NumberStyle.general.float32 x
  | complex re im => complexText re im
  | list xs | sequence _ xs => "[" ++ Text.join " " (describeAll names xs) ++ "]"
  | noList => "[]"
  | row fields => "map[" ++ Text.join " " (describeRow names id fields) ++ "]"
  | noRow => "map[]"
  | lexicon _ written fields => "map[" ++ Text.join " " (describeRow names written fields) ++ "]"
  | dictionary _ entries => "map[" ++ Text.join " " (describeEntries names entries) ++ "]"
  | record _ fields => "\x7b" ++ Text.join " " (describeFields names fields) ++ "\x7d"
  | noReference _ _ | noFunc _ => "<nil>"
  | reference type place v => (referredText? type v).getD (address place)
  | closure _ _ s | foldClosure _ s => address s.place
  | func f => f.text
  | fold f => f.text

def describeAll (names : Bool) : List Value → List Text
  | [] => []
  | v :: vs => describe names v :: describeAll names vs

def describeRow (names : Bool) (written : Text → Text) : List (Text × Value) → List Text
  | [] => []
  | (k, v) :: fs => (written k ++ ":" ++ describe names v) :: describeRow names written fs

def describeFields (names : Bool) : List (Text × Value) → List Text
  | [] => []
  | (k, v) :: fs =>
    (if names then k ++ ":" ++ describe names v else describe names v) :: describeFields names fs

def describeEntries (names : Bool) : List (Value × Value) → List Text
  | [] => []
  | (k, v) :: es => (describe names k ++ ":" ++ describe names v) :: describeEntries names es

end

def toMessage : Value → Text
  | reference type place v =>
    (referredText? type v).getD
      (if type = v.typeName && v.isComposite then "&" ++ v.describe false else address place)
  | v => v.describe false

def toText? : Value → Option Text
  | null => some ""
  | noReference _ (some .text) => none
  | v => some v.toMessage

mutual

def displayable? : Value → Option Value
  | v@null | v@(bool _) | v@(text _) | v@(float _) | v@(int _) | v@(sized _ _) | v@(single _)
  | v@(numeral _) => some v
  | named _ t | error _ t => some (text t)
  | stamp s => some (text s.text)
  | func f => some (text f.text)
  | fold f => some (text f.text)
  | noFunc _ | noReference _ none => some null
  | noReference _ (some _) => none
  | closure _ _ s | foldClosure _ s => some (text s.name)
  | list xs | sequence _ xs => (displayableAll? xs).map list
  | noList => some (list [])
  | row fields | lexicon _ _ fields => (displayableFields? fields).map row
  | noRow => some (row [])
  | reference type _ v =>
    match referredText? type v with
    | some t => some (text t)
    | none => displayable? v
  | v@(record _ _) => some (text (v.describe true))
  | v@(dictionary _ _) | v@(complex _ _) => some (text (v.describe false))

def displayableAll? : List Value → Option (List Value)
  | [] => some []
  | v :: vs => do
    let w ← displayable? v
    let ws ← displayableAll? vs
    return w :: ws

def displayableFields? : List (Text × Value) → Option (List (Text × Value))
  | [] => some []
  | (k, v) :: fs => do
    let w ← displayable? v
    let gs ← displayableFields? fs
    return (k, w) :: gs

end

end Dataflow.Value
