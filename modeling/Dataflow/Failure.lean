import Dataflow.Json.Basic
import Dataflow.Text.Quoted

/-!
# Failures

A failure is plain text, one of the few causes that callers ask for, a failure in a context, several
failures together, or a *report*: a failure with a code, details and possibly a cause.  The code of
a failure is that of the first report on its chain of causes.
-/

namespace Dataflow

inductive ErrorCode where
  | build
  | typeMismatch
  | malformedGraph
  | unknownBackend
  | backendExecution
  | unsupported
  | connectorUnavailable
  | invalidInput
  | notFound
  | internal
  | other (name : Text)
deriving DecidableEq

namespace ErrorCode

def name : ErrorCode → Text
  | build => "BUILD_ERROR"
  | typeMismatch => "TYPE_MISMATCH"
  | malformedGraph => "MALFORMED_GRAPH"
  | unknownBackend => "UNKNOWN_BACKEND"
  | backendExecution => "BACKEND_EXECUTION"
  | unsupported => "UNSUPPORTED_OPERATION"
  | connectorUnavailable => "CONNECTOR_UNAVAILABLE"
  | invalidInput => "INVALID_INPUT"
  | notFound => "NOT_FOUND"
  | internal => "INTERNAL_ERROR"
  | other n => n

def declared : List ErrorCode :=
  [build, typeMismatch, malformedGraph, unknownBackend, backendExecution, unsupported,
   connectorUnavailable, invalidInput, notFound, internal]

def ofName (n : Text) : ErrorCode := (declared.find? (·.name = n)).getD (other n)

def isRetryable : ErrorCode → Bool
  | connectorUnavailable => true
  | _ => false

def isExecution : ErrorCode → Bool
  | backendExecution | unsupported | connectorUnavailable => true
  | _ => false

def exitStatus : ErrorCode → Nat
  | invalidInput | notFound => 2
  | build | typeMismatch => 3
  | malformedGraph => 4
  | unknownBackend => 5
  | backendExecution | unsupported => 6
  | connectorUnavailable => 7
  | internal | other _ => 1

end ErrorCode

inductive FileFault where
  | missing
  | denied
  | isDirectory
  | notDirectory
  | notEmpty
deriving DecidableEq

def FileFault.text : FileFault → Text
  | missing => "no such file or directory"
  | denied => "permission denied"
  | isDirectory => "is a directory"
  | notDirectory => "not a directory"
  | notEmpty => "directory not empty"

inductive Failure where
  | plain (t : Text)
  /-- Words of a reader of documents or tables. -/
  | reader (t : Text)
  | cancelled
  | deadline
  | notExist
  | permission
  | file (operation path : Text) (fault : FileFault)
  | context (t : Text) (cause : Failure)
  | joined (causes : List Failure)
  | report (code : ErrorCode) (message : Text) (retryable : Bool) (details : Row)
      (cause : Option Failure)
deriving Inhabited

def shortId (id : Text) : Text := id.take 8

namespace Failure

def heading (code : ErrorCode) (details : Row) : Text :=
  match Fields.get? details "node" with
  | some (.text id) => if id.isEmpty then code.name else code.name ++ " [node " ++ shortId id ++ "]"
  | _ => code.name

mutual

def text : Failure → Text
  | plain t | reader t => t
  | cancelled => "context canceled"
  | deadline => "context deadline exceeded"
  | notExist => "file does not exist"
  | permission => "permission denied"
  | file op path fault => op ++ " " ++ path ++ ": " ++ fault.text
  | context t cause => t ++ ": " ++ text cause
  | joined causes => Text.join "\n" (texts causes)
  | report code message _ details none => heading code details ++ ": " ++ message
  | report code message _ details (some cause) =>
    heading code details ++ ": " ++ message ++ " (cause: " ++ text cause ++ ")"

def texts : List Failure → List Text
  | [] => []
  | f :: fs => text f :: texts fs

end

structure Report where
  code : ErrorCode
  message : Text
  retryable : Bool := false
  details : Row := []
  cause : Option Failure := none

def ofReport (r : Report) : Failure := report r.code r.message r.retryable r.details r.cause

instance : Coe Report Failure := ⟨ofReport⟩

mutual

/-- The first report on the chain of causes, in depth-first order. -/
def report? : Failure → Option Report
  | report c m r d e => some ⟨c, m, r, d, e⟩
  | context _ cause => report? cause
  | joined causes => firstReport? causes
  | _ => none

def firstReport? : List Failure → Option Report
  | [] => none
  | f :: fs => (report? f).or (firstReport? fs)

end

mutual

def anyCause (p : Failure → Bool) : Failure → Bool
  | f@(report _ _ _ _ (some cause)) => p f || anyCause p cause
  | f@(context _ cause) => p f || anyCause p cause
  | f@(joined causes) => p f || anyCauses p causes
  | f => p f

def anyCauses (p : Failure → Bool) : List Failure → Bool
  | [] => false
  | f :: fs => anyCause p f || anyCauses p fs

end

def isCancelled : Failure → Bool
  | cancelled => true
  | _ => false

def isDeadline : Failure → Bool
  | deadline => true
  | _ => false

/-- Whether the failure comes from the caller giving up. -/
def isInterruption (f : Failure) : Bool := f.anyCause fun g => g.isCancelled || g.isDeadline

def isMissingFile (f : Failure) : Bool := f.anyCause fun g => match g with
  | notExist | file _ _ .missing => true
  | _ => false

mutual

/-- Whether a code occurs among the reports met by following first reports and their causes. -/
def hasCode (code : ErrorCode) : Failure → Bool
  | report c _ _ _ none => c = code
  | report c _ _ _ (some cause) => c = code || hasCode code cause
  | context _ cause => hasCode code cause
  | joined causes => hasCodeFirst code causes
  | _ => false

/-- The same of the first failure in a list that holds a report. -/
def hasCodeFirst (code : ErrorCode) : List Failure → Bool
  | [] => false
  | f :: fs => if (report? f).isSome then hasCode code f else hasCodeFirst code fs

end

def code? (f : Failure) : Option ErrorCode := f.report?.map Report.code

def isExecution (f : Failure) : Bool := (f.code?.map ErrorCode.isExecution).getD false

def node (f : Failure) : Text :=
  match f.report? with
  | some r => match Fields.get? r.details "node" with
    | some (.text id) => id
    | _ => ""
  | none => ""

namespace Report

def withDetail (r : Report) (key : Text) (v : Value) : Report :=
  { r with details := Fields.set key v r.details }

def withDetails (r : Report) (more : Row) : Report :=
  { r with details := Fields.update r.details more }

def withCause (r : Report) (cause : Option Failure) : Report := { r with cause }

/-- A detail that is set only where it is absent. -/
def orDetail (r : Report) (key : Text) (v : Value) : Report :=
  if Fields.has r.details key then r else r.withDetail key v

def members? (r : Report) : Option (List (Text × Json)) := do
  let details ← (Value.row r.details).toJson?
  return Json.membersWith
    [("code", .text r.code.name), ("message", .text r.message), ("retryable", .bool r.retryable)]
    r.details.isEmpty "details" details

def toJson? (r : Report) : Option Json := r.members?.map .object

def response? (r : Report) : Option Json := do
  let members ← r.members?
  let causeText := (r.cause.map Failure.text).getD ""
  return .object
    [("error", .object (Json.membersWith members causeText.isEmpty "cause" (.text causeText)))]

end Report

/-! ### The reports of this library -/

def new (code : ErrorCode) (message : Text) : Report := { code, message, retryable := code.isRetryable }

def build (message : Text) : Report := new .build message

def typeMismatch (type : Text) : Report :=
  { code := .typeMismatch, message := "right operand must be an operator, got " ++ type,
    details := [("type", .text type)] }

def malformedGraph (message : Text) : Report := new .malformedGraph message

def danglingParent (node parent : Text) : Report :=
  { code := .malformedGraph
    message := "parent " ++ parent.quoted ++ " referenced but not present in graph"
    details := [("node", .text node), ("parent", .text parent)] }

def unknownBackend (name : Text) : Report :=
  { code := .unknownBackend, message := "unknown backend " ++ name.quoted,
    details := [("backend", .text name)] }

def backendExecution (backend : Text) (cause : Option Failure) : Report :=
  { code := .backendExecution, message := "backend " ++ backend ++ " failed",
    details := [("backend", .text backend)], cause }

def unsupported (backend op : Text) : Report :=
  { code := .unsupported, message := op ++ " is not supported by backend " ++ backend,
    details := [("backend", .text backend), ("op", .text op)] }

def connectorUnavailable (uri : Text) (cause : Option Failure) : Report :=
  { code := .connectorUnavailable, message := "connector for " ++ uri ++ " is unavailable",
    retryable := true, details := [("uri", .text uri)], cause }

def invalidInput (field reason : Text) : Report :=
  { code := .invalidInput, message := "invalid input: " ++ reason,
    details := if field.isEmpty then [] else [("field", .text field)] }

def validation (message : Text) : Report := new .invalidInput message

def notFound (resource name : Text) : Report :=
  { code := .notFound, message := resource ++ " " ++ name.quoted ++ " not found",
    details := if name.isEmpty then [("resource", .text resource)]
      else [("name", .text name), ("resource", .text resource)] }

def internal (cause : Option Failure) : Report :=
  { code := .internal, message := "an unexpected error occurred", cause }

/-- The failure attached to a node: its report keeps code, and gains node and backend where it has
none; a failure without a report becomes one of the backend. -/
def atNode (f : Failure) (backend node : Text) : Report :=
  match f.report? with
  | some r =>
    let r := r.orDetail "node" (.text node)
    if backend.isEmpty then r else r.orDetail "backend" (.text backend)
  | none => (backendExecution backend (some f)).withDetail "node" (.text node)

end Failure

/-- Why a computation stops short: it fails, or it breaks off because of a fault in the program
that asked for it, such as an index out of range. -/
inductive Stop where
  | failure (f : Failure)
  | crash

abbrev Outcome := Except Stop

namespace Outcome

/-- A computation that goes on with a result gives one only if there is that result. -/
theorem bind_eq_ok {ε α β : Type} {x : Except ε α} {f : α → Except ε β} {b : β} (h : x >>= f = .ok b) :
    ∃ a, x = .ok a ∧ f a = .ok b := by
  cases x with
  | error e => cases h
  | ok a => exact ⟨a, rfl, h⟩

variable {α : Type}

def fail (f : Failure) : Outcome α := .error (.failure f)

def crash : Outcome α := .error .crash

def ofOption : Option α → Outcome α
  | some a => .ok a
  | none => crash

def ofExcept : Except Failure α → Outcome α
  | .ok a => .ok a
  | .error f => fail f

def mapFailure (g : Failure → Failure) : Outcome α → Outcome α
  | .error (.failure f) => fail (g f)
  | r => r

end Outcome

end Dataflow
