import Dataflow.Text.Basic

/-!
# Paths

Paths of files as texts with slashes.
-/

namespace Dataflow

namespace Text

/-- The parts of a path without those that lead nowhere; a step up cancels the part before it. -/
def pathParts (rooted : Bool) : List Text → List Text → List Text
  | done, [] => done
  | done, p :: ps =>
    if p.isEmpty || p = "." then pathParts rooted done ps
    else if p = ".." then
      match done.getLast? with
      | some last => if last = ".." then pathParts rooted (done ++ [p]) ps else pathParts rooted done.dropLast ps
      | none => pathParts rooted (if rooted then [] else [p]) ps
    else pathParts rooted (done ++ [p]) ps

/-- The shortest path that leads to the same place. -/
def cleanPath (t : Text) : Text :=
  let rooted := t.startsWith "/"
  let path := join "/" (pathParts rooted [] (t.split "/"))
  if rooted then "/" ++ path else if path.isEmpty then "." else path

def joinPath (dir t : Text) : Text :=
  let parts := [dir, t].filter fun p => !p.isEmpty
  if parts.isEmpty then "" else (join "/" parts).cleanPath

def parentPath (t : Text) : Text :=
  match t.cutLast? (byte '/') with
  | some (dir, _) => (dir ++ "/").cleanPath
  | none => "."

def extension (t : Text) : Text :=
  let last := ((t.cutLast? (byte '/')).map Prod.snd).getD t
  match last.cutLast? (byte '.') with
  | some (_, e) => "." ++ e
  | none => ""

end Text

end Dataflow
