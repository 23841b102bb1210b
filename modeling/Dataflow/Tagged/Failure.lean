import Dataflow.Tagged.Value
import Dataflow.Message.Pattern

/-!
# Failures by description

A failure as a value: a text for a plain one, or a list of a word and arguments, some of which
describe causes.  A failure is written by its code, its message and its details.  The words of a reader
of documents or tables are no part of a message: a mark stands for them.
-/

namespace Dataflow.Tagged

open Failure

def textOf : Value → Text
  | .text t => t
  | _ => ""

def plainFailure (t : Text) : Failure :=
  let table : List (Text × Failure) := [("canceled", .cancelled), ("deadline", .deadline),
    ("not exist", .notExist), ("permission", .permission)]
  (Fields.get? table t).getD (.plain t)

def onReport (f : Option Failure) (g : Failure.Report → Failure.Report) : Option Failure :=
  (f.bind report?).map fun r => (g r : Failure)

/-- The failure of a word and its arguments; each argument is given as the failure that it
describes, too. -/
def failureOf (word : Text) (args : List Value) (causes : List (Option Failure)) :
    Option Failure :=
  let arg (i : Nat) := args.getD i .null
  let a := textOf (arg 0)
  let b := textOf (arg 1)
  let c := textOf (arg 2)
  let cause (i : Nat) : Option Failure := (causes[i]?).join
  let code := ErrorCode.ofName a
  let table : List (Text × Option Failure) :=
    [("new", some (new code b)),
     ("newf", some (new code (formatMessage b (args.drop 2)))),
     ("build", some (build a)),
     ("type_mismatch", some (typeMismatch (arg 0).typeName)),
     ("malformed", some (malformedGraph a)),
     ("dangling", some (danglingParent a b)),
     ("unknown_backend", some (unknownBackend a)),
     ("backend", some (backendExecution a (cause 1))),
     ("unsupported", some (unsupported a b)),
     ("connector", some (connectorUnavailable a (cause 1))),
     ("invalid", some (invalidInput a b)),
     ("validation", some (validation a)),
     ("not_found", some (notFound a b)),
     ("internal", some (internal (cause 0))),
     ("wrap", some (match cause 1 with
       | some f => .context a f
       | none => .plain (a ++ ": %!w(<nil>)"))),
     ("join", match [cause 0, cause 1].filterMap id with
       | [] => none
       | fs => some (.joined fs)),
     ("at_node", some (match cause 0 with
       | some f => f.atNode b c
       | none => (backendExecution b none).withDetail "node" (.text c))),
     ("detail", onReport (cause 0) fun r => r.withDetail b (arg 2)),
     ("details", onReport (cause 0) fun r => r.withDetails ((arg 1).asRow?.getD [])),
     ("cause", onReport (cause 0) fun r => r.withCause (cause 1))]
  (Fields.get? table word).join

mutual

def failure? : Value → Option Failure
  | .text t => some (plainFailure t)
  | .list (.text word :: args) => failureOf word args (failures args)
  | _ => none

def failures : List Value → List (Option Failure)
  | [] => []
  | v :: vs => failure? v :: failures vs

end

/-- What stands for the words of a reader. -/
def readerMark : Text := "<library>"

/-- Whether the words of a cause are those of a reader, or of a context around a failure. -/
def isReaderCause (f : Failure) : Bool :=
  let t := f.text
  let marks : List Text := ["unexpected end of JSON", "arrow", "parquet"]
  (match f with
  | .context _ _ => true
  | _ => false)
    || f.anyCause (fun g => match g with
      | .reader _ => true
      | _ => false)
    || marks.any t.contains

mutual

/-- The message of a failure with a mark in place of a reader's words. -/
def maskedText : Failure → Text
  | .report code message _ details cause =>
    let about := textOf ((Fields.get? details "field").getD .null)
    let message : Text :=
      if about = "graph" && !message.startsWith "invalid input: node " then
        "invalid input: " ++ readerMark
      else message
    let head := heading code details ++ ": " ++ message
    match cause with
    | none => head
    | some c =>
      let words :=
        if about = "definition" || about = "config" || isReaderCause c then readerMark
        else maskedText c
      head ++ " (cause: " ++ words ++ ")"
  | .context t c => t ++ ": " ++ maskedText c
  | .joined fs => Text.join "\n" (maskedTexts fs)
  | f => f.text

def maskedTexts : List Failure → List Text
  | [] => []
  | f :: fs => maskedText f :: maskedTexts fs

end

def writeFailure (unknown : Text) (f : Failure) : Json :=
  let message : Json := maskedText f
  match f.report? with
  | none => .object [("error", .text "plain"), ("message", message)]
  | some r => .object (Json.membersWith [("error", r.code.name), ("message", message)]
      r.details.isEmpty "details" (write unknown (.row r.details)))

end Dataflow.Tagged
