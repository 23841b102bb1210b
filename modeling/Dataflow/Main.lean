import Dataflow.Command.Perform

/-!
# The command line

Reads the files that a command needs, runs it, and writes what it printed and the files it changed.
Files are those below the working directory.
-/

namespace Dataflow.Main

def parts (path : Text) : List Text :=
  (path.cleanPath.split "/").filter fun p => !p.isEmpty && p ≠ "."

/-- Reads one file into the files known so far; a directory is kept by an entry without a name. -/
def readFile (fs : Files) (path : Text) : IO Files := do
  try
    let bytes ← IO.FS.readBinFile path.display
    return fs.put (parts path) (.text ⟨bytes.toList⟩)
  catch e =>
    match e with
    | .noFileOrDirectory _ _ _ => return fs
    | _ => return fs.put (parts path ++ [Text.empty]) (.text "")

/-- Reads the files that a command may need until it needs no more. -/
def readFiles (words : List Text) : Nat → List Text → Files → IO Files
  | 0, _, fs => return fs
  | rounds + 1, tried, fs => do
    let new := (Command.wanted words fs).filter fun p => !p.startsWith "/" && !tried.contains p
    if new.isEmpty then return fs
    let fs ← new.foldlM readFile fs
    readFiles words rounds (tried ++ new) fs

def environment : IO Environment.Variables := do
  let mut vars := []
  for name in Environment.known do
    if let some v ← IO.getEnv name.display then vars := vars ++ [(name, Text.ofString v)]
  return vars

def writeFile (before : Files) (entry : List Text × Stored) : IO Unit := do
  let (path, stored) := entry
  let name := (Text.join "/" path).display
  match stored, before.entry? path with
  | .text t, some (.file (.text u)) =>
    if t ≠ u then IO.FS.writeBinFile name ⟨t.bytes.toArray⟩
  | .text t, _ => IO.FS.writeBinFile name ⟨t.bytes.toArray⟩
  | .table _, _ => IO.eprintln ("cannot store the table " ++ name)

end Dataflow.Main

open Dataflow in
def main (args : List String) : IO UInt32 := do
  let words := args.map Text.ofString
  let files ← Main.readFiles words 100 [] {}
  let (status, console) :=
    Command.execute { environment := ← Main.environment } words { files }
  for entry in console.workspace.files.entries do
    Main.writeFile files entry
  (← IO.getStdout).write ⟨console.out.bytes.toArray⟩
  (← IO.getStderr).write ⟨console.err.bytes.toArray⟩
  return (status.getD 2).toUInt32
