import Dataflow.Failure

/-!
# Checks

Settings are checked field by field.  Every failed check is kept, and one failure lists them all.
-/

namespace Dataflow

namespace Text

/-- Groups of hexadecimal digits with a dash between them, as in `xxxxxxxx-xxxx-xxxx-xxxx-xxxxxxxxxxxx`.
What follows the last group is not looked at. -/
def isGrouped (t : Text) : Bool :=
  (t.bytes.take 36).length = 36 && (t.bytes.take 36).zipIdx.all fun (b, i) =>
    if i = 8 || i = 13 || i = 18 || i = 23 then b = byte '-' else (Byte.hexValue? b).isSome

/-- A universally unique identifier: grouped digits, plain or with any one byte on either side or
after `urn:uuid:`, or the 32 digits alone. -/
def isUuid (t : Text) : Bool :=
  if t.length = 36 then t.isGrouped
  else if t.length = 45 then (Text.take 9 t).sameFold "urn:uuid:" && (Text.drop 9 t).isGrouped
  else if t.length = 38 then (Text.drop 1 t).isGrouped
  else t.length = 32 && t.all fun b => (Byte.hexValue? b).isSome

end Text

structure FieldFault where
  field : Text
  message : Text
deriving DecidableEq

abbrev Checks := List FieldFault

namespace Checks

def require (cs : Checks) (holds : Bool) (field message : Text) : Checks :=
  if holds then cs else cs ++ [⟨field, message⟩]

def required (cs : Checks) (field t : Text) : Checks :=
  cs.require (!t.trim.isEmpty) field "is required"

def atLeast (cs : Checks) (field : Text) (n bound : Int) : Checks :=
  cs.require (bound ≤ n) field ("must be at least " ++ Text.ofInt bound)

def less (cs : Checks) (field : Text) (a b : Int) (message : Text) : Checks :=
  cs.require (a < b) field message

def nonNegative (cs : Checks) (field : Text) (x : Float) : Checks :=
  cs.require (!(x < 0)) field "must not be negative"

def oneOf (cs : Checks) (field t : Text) (allowed : List Text) : Checks :=
  cs.require (t.isEmpty || allowed.contains t) field
    ("must be one of: " ++ Text.join ", " allowed)

def uuid (cs : Checks) (field t : Text) : Checks :=
  cs.require (t.isEmpty || t.isUuid) field "must be a valid UUID"

def detail (cs : Checks) : Value :=
  .sequence "[]validation.FieldError" (cs.map fun c =>
    .record "validation.FieldError" [("field", .text c.field), ("message", .text c.message)])

def failure? (cs : Checks) : Option Failure.Report :=
  if cs.isEmpty then none
  else some ((Failure.validation (Text.join "; " (cs.map fun c => c.field ++ ": " ++ c.message))
    ).withDetail "fields" cs.detail)

def result (cs : Checks) : Except Failure Unit :=
  match cs.failure? with
  | some r => .error r
  | none => .ok ()

end Checks

end Dataflow
