import Dataflow.Duration
import Dataflow.Failure

/-!
# Summaries

What a program compiled and ran, and its display as a tree.
-/

namespace Dataflow

/-- A graph that was compiled, with the time that took in nanoseconds. -/
structure CompileRecord where
  backend : Text
  nodes : Int
  targets : Int
  nanos : Int := 0

/-- A target that was run, with the rows that reached it. -/
structure SinkRecord where
  target : Text
  rows : Int
  failure : Option Failure := none

structure Summary where
  service : Text := ""
  version : Text := ""
  compiles : List CompileRecord := []
  sinks : List SinkRecord := []

namespace Summary

/-- Lines below a heading, each with its branch of the tree; nothing where there are none. -/
def tree (heading : Text) (items : List Text) : Text :=
  if items.isEmpty then ""
  else heading ++ "\n" ++ Text.concat (items.zipIdx.map fun (t, i) =>
    "   " ++ (if i + 1 = items.length then "└── " else "├── ") ++ t ++ "\n")

def compileText (c : CompileRecord) : Text :=
  c.backend ++ ": " ++ Text.ofInt c.nodes ++ " nodes, " ++ Text.ofInt c.targets ++ " targets in "
    ++ Duration.text (Duration.roundTo 1000 c.nanos)

def sinkText (s : SinkRecord) : Text :=
  s.target ++ " " ++ match s.failure with
    | some f => "failed: " ++ f.text
    | none => Text.ofInt s.rows ++ " rows"

def verdict (sinks : List SinkRecord) : Text :=
  let all := Text.ofNat sinks.length
  let good := sinks.countP fun s => s.failure.isNone
  if sinks.isEmpty then ""
  else if good = sinks.length then "all sinks completed (" ++ all ++ "/" ++ all ++ ")\n"
  else "some sinks failed (" ++ Text.ofNat good ++ "/" ++ all ++ " ok)\n"

def text (s : Summary) : Text :=
  s.service ++ " " ++ s.version ++ "\n" ++ tree "compiled" (s.compiles.map compileText)
    ++ tree "sinks" (s.sinks.map sinkText) ++ verdict s.sinks

end Summary

end Dataflow
