import Dataflow.Moment.Text
import Dataflow.Json.Basic

/-!
# Releases

What a build of the program says of itself: its version, the commit and branch it was built from,
and when.
-/

namespace Dataflow

structure Release where
  version : Text
  commit : Text := ""
  branch : Text := ""
  toolchain : Text := ""
  built : Option Moment := none
  released : Bool := false
  dirty : Bool := false

namespace Release

/-- The build with what its own settings say: the commit is cut to seven bytes, and a version is
released unless it is one of development. -/
def ofSettings (version commit branch built : Text) : Release :=
  { version, commit := commit.take 7, branch, built := Moment.zoned? built
    released := version ≠ "dev" && !version.contains "dirty" }

def short (r : Release) : Text :=
  if r.commit.isEmpty then r.version
  else r.version ++ "-" ++ r.commit ++ (if r.dirty then "-dirty" else "")

/-- Version, commit, a branch that is not the main one, and the date. -/
def text (r : Release) : Text :=
  let branch := if r.branch = "" || r.branch = "main" || r.branch = "master" then [] else [r.branch]
  let built := match r.built with
    | some m => ["(built " ++ m.zonedText ++ ")"]
    | none => []
  Text.join " " (r.short :: (branch ++ built))

def fields (r : Release) : Row :=
  [("git_commit", .text r.commit), ("go_version", .text r.toolchain), ("version", .text r.version)]

def toJson (r : Release) : Json :=
  let optional (key : Text) (t : Text) : List (Text × Json) := if t.isEmpty then [] else [(key, .text t)]
  let always (key : Text) (j : Json) : List (Text × Json) := [(key, j)]
  .object (always "version" (.text r.version) ++ optional "git_commit" r.commit
    ++ optional "git_branch" r.branch ++ always "go_version" (.text r.toolchain)
    ++ optional "build_date" ((r.built.map Moment.zonedText).getD "")
    ++ always "release" (.bool r.released) ++ always "dirty" (.bool r.dirty))

end Release

end Dataflow
