import Dataflow.Compile
import Dataflow.Script.Dialect

/-!
# Scripts

A program is a list of statements, each owned by the node it was made for, and the name of the
variable that holds the result.  A node owns at most one statement.

The script of a graph defines one variable for each node.  Where the dialect has no statement for a
node, a comment stands in and the input stays the result.
-/

namespace Dataflow

structure Program where
  statements : List (Text × Text) := []
  result : Text := ""
deriving DecidableEq

namespace Program

/-- Adds statements whose owners have none yet. -/
def absorb (p q : Program) : Program :=
  { statements := q.statements.foldl (fun ss s =>
      if ss.any (·.1 = s.1) then ss else ss ++ [s]) p.statements
    result := q.result }

/-- Programs one after another, with each shared statement once.  The result is that of the last. -/
def merge (ps : List Program) : Program := ps.foldl absorb {}

def append (p : Program) (owner statement result : Text) : Program :=
  if statement.isEmpty then { p with result }
  else
    { statements := match p.statements.findIdx? (·.1 = owner) with
        | some i => p.statements.set i (owner, statement)
        | none => p.statements ++ [(owner, statement)]
      result }

def lines (p : Program) : List Text := p.statements.map Prod.snd

def size (p : Program) : Nat := p.statements.length

def text (p : Program) : Text := Text.join "\n" p.lines

end Program

end Dataflow

namespace Dataflow.Script

def variableOf (n : Node) : Text := "t_" ++ n.ident

def input (inputs : List Program) (i : Nat) : Text :=
  match inputs[i]? with
  | some p => if p.result.isEmpty then "t_none" else p.result
  | none => "t_none"

def indicatorOf (n : Node) : Outcome (Except Text (Indicator × Indicator.Params Float)) := do
  let kind ← n.kind
  match Indicator.lookup? kind with
  | none => return .error kind
  | some k => return .ok (k, ← k.params n.config)

def ofNode (d : Dialect) (n : Node) (inputs : List Program) : Outcome Program := do
  let p := Program.merge inputs
  let v := variableOf n
  let first := input inputs 0
  let second := input inputs 1
  let define (statement : Text) : Program := p.append n.id statement v
  let unsupported (what : Text) : Program :=
    p.append n.id (d.comment ("unsupported " ++ what)) first
  match n.op with
  | .source => return define (d.source v (.parse (← n.text "uri" "")))
  | .filter =>
    let e ← n.expr
    let e ← if e.isEmpty then n.text "predicate_sql" "" else pure e
    return define (d.filter v first e)
  | .map =>
    let e ← n.expr
    return define (d.map v first e (← n.text "fn_name" "fn"))
  | .reduce =>
    let e ← n.expr
    return if e.isEmpty then unsupported "reduce without expression" else define (d.reduce v first e)
  | .join => return define (d.join v first second (← n.text "on" ""))
  | .union | .merge => return define (d.concat v (inputs.map Program.result))
  | .choice => return define (d.choice v first second)
  | .ensemble => return define (d.ensemble v first second)
  | .custom =>
    match ← indicatorOf n with
    | .error kind => return unsupported ("custom op " ++ kind)
    | .ok (k, params) => return define (d.indicator v first k params)
  | .sink => return p.append n.id (d.sink first (.parse (← n.text "uri" "stdout"))) first
  | .window | .other _ => return unsupported ("op " ++ n.op.name)

def backendName (d : Dialect) : Text := "script:" ++ d.name

/-- A failure at a node of a branch keeps that node. -/
def explain (d : Dialect) (n : Node) : Stop → Stop
  | .failure f => .failure (f.atNode (backendName d) n.id)
  | .crash => .crash

def backend (d : Dialect) : Backend Program :=
  Backend.branching (backendName d)
    (fun n inputs => Effect.ofOutcome
      ((ofNode d n inputs).mapFailure fun f => f.atNode (backendName d) n.id))
    (explain d)

end Dataflow.Script
