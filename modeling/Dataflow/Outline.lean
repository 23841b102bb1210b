import Dataflow.Compile

/-!
# Outlines

The outline of a graph is one line of nested calls, such as
`Sink(Map(Scan(csv://x), fn=inc), target=stdout)`.
-/

namespace Dataflow.Outline

def call (name : Text) (args : List Text) : Text := name ++ "(" ++ Text.join ", " args ++ ")"

def input (inputs : List Text) (i : Nat) : Text := inputs.getD i "None"

def ofNode (n : Node) (inputs : List Text) : Outcome Text :=
  let first := input inputs 0
  let second := input inputs 1
  match n.op with
  | .source => return call "Scan" [← n.text "uri" "unknown"]
  | .map => return call "Map" [first, "fn=" ++ (← n.text "fn_name" "fn")]
  | .filter => return call "Filter" [first, "pred=" ++ (← n.text "fn_name" "pred")]
  | .sink => return call "Sink" [first, "target=" ++ (← n.text "uri" "stdout")]
  | .window => return call "Window" [first, "size=" ++ Text.ofInt (n.int "size" 0).toInt]
  | .reduce => return call "Reduce" [first, "fn=" ++ (← n.text "fn_name" "fn")]
  | .join => return call "Join" [first, second, "on=" ++ (← n.text "on" "")]
  | .union => return call "Union" (if inputs.isEmpty then ["None"] else inputs)
  | .choice | .ensemble | .merge => return call n.op.name [first, second]
  | .custom => return call (← n.text "kind" "Custom") [first]
  | .other name => return call name [first]

mutual

/-- The outline of a step over that of its input.  Branches that stand for no nodes are the input
itself. -/
def ofStep : Step → Text → Outcome Text
  | .single n, t => ofNode n [t]
  | .broken n (.failure _), t => return call n.op.name [t, t]
  | .broken _ .crash, _ => Outcome.crash
  | .composite n left right, t => do
    let l ← ofSteps left t
    let r ← ofSteps right t
    return call n.op.name [l, r]

def ofSteps : List Step → Text → Outcome Text
  | [], t => return t
  | s :: ss, t => do
    let u ← ofStep s t
    ofSteps ss u

end

def backend : Backend Text where
  name := "string"
  lower n inputs := Effect.ofOutcome (match n.step with
    | .single n => ofNode n inputs
    | s => ofStep s (input inputs 0))

end Dataflow.Outline
