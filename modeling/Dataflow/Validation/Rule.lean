import Dataflow.Validation
import Dataflow.Validation.Address

/-!
# Rules

A field of a form obeys a list of rules, and the first that it breaks is reported.
-/

namespace Dataflow

inductive Content where
  | text (t : Text)
  | int (n : Int)
  | float (x : Float)

namespace Content

def isZero : Content → Bool
  | text t => t.isEmpty
  | int n => n = 0
  | float x => x == 0

/-- The quantity that bounds are on: the number itself, or how many characters a text has. -/
def quantity : Content → Float
  | text t => Float64.ofInt t.chars.length
  | int n => Float64.ofInt n
  | float x => x

end Content

inductive Rule where
  | required
  /-- Required where a condition on other fields holds. -/
  | requiredIf (condition : Bool)
  | atLeast (n : Int)
  | atMost (n : Int)
  | above (n : Int)
  | oneOf (allowed : List Text)
  | url
  | email

namespace Rule

def holds : Rule → Content → Bool
  | required, c => !c.isZero
  | requiredIf condition, c => !condition || !c.isZero
  | atLeast n, c => Float64.ofInt n ≤ c.quantity
  | atMost n, c => c.quantity ≤ Float64.ofInt n
  | above n, c => Float64.ofInt n < c.quantity
  | oneOf allowed, .text t => allowed.contains t
  | url, .text t => t.isUrl
  | email, .text t => t.isEmail
  | _, _ => false

def message : Rule → Content → Text
  | required, _ => "is required"
  | atLeast n, .text _ => "must be at least " ++ Text.ofInt n ++ " characters"
  | atLeast n, _ => "must be at least " ++ Text.ofInt n
  | atMost n, _ => "must be at most " ++ Text.ofInt n
  | above n, _ => "must be greater than " ++ Text.ofInt n
  | oneOf allowed, _ => "must be one of: " ++ Text.join " " allowed
  | url, _ => "must be a valid URI"
  | requiredIf _, _ | email, _ => "is invalid"

end Rule

structure FormField where
  name : Text
  content : Content
  rules : List Rule

namespace FormField

/-- A field that may be left out; its rules hold only where it is filled in. -/
def optional (name : Text) (content : Content) (rules : List Rule) : FormField :=
  { name, content, rules := if content.isZero then [] else rules }

def each {α : Type} (name : Text) (xs : List α) (fields : Text → α → List FormField) : List FormField :=
  xs.zipIdx.flatMap fun (x, i) => fields (name ++ "[" ++ Text.ofNat i ++ "]") x

end FormField

/-- Checks every field of a form, and reports the first rule that each breaks. -/
def Checks.form (cs : Checks) (fields : List FormField) : Checks :=
  fields.foldl (fun cs f => match f.rules.find? (!·.holds f.content) with
    | some r => cs.require false f.name (r.message f.content)
    | none => cs) cs

end Dataflow
