import Dataflow.Frame.Basic

/-!
# Files

The files below a working directory, by path.  A file holds text or a table; directories are there
where a file is in them.  Paths are relative to the working directory, and lead nowhere outside it.
-/

namespace Dataflow

inductive Stored where
  | text (t : Text)
  | table (f : Frame)

/-- The files below the working directory, by the parts of their paths. -/
structure Files where
  entries : List (List Text × Stored) := []

namespace Files

inductive Entry where
  | file (s : Stored)
  | directory

def entry? (fs : Files) (parts : List Text) : Option Entry :=
  match fs.entries.find? (·.1 = parts) with
  | some (_, s) => some (.file s)
  | none =>
    if parts.isEmpty || fs.entries.any (fun (p, _) => parts.isPrefixOf p) then some .directory
    else none

/-- Follows the parts of a path from a directory. All but the last must be directories. -/
def follow (fs : Files) (here : List Text) : List Text → Except FileFault (List Text)
  | [] => .ok here
  | part :: parts =>
    match fs.entry? here with
    | none => .error .missing
    | some (.file _) => .error .notDirectory
    | some .directory =>
      if part.isEmpty || part = "." then follow fs here parts
      else if part = ".." then
        if here.isEmpty then .error .missing else follow fs here.dropLast parts
      else follow fs (here ++ [part]) parts

def resolve (fs : Files) (path : Text) : Except FileFault (List Text) :=
  if path.isEmpty || path.startsWith "/" then .error .missing
  else fs.follow [] (path.split "/")

def lookup (fs : Files) (path : Text) : Except FileFault Entry := do
  match fs.entry? (← fs.resolve path) with
  | some e => .ok e
  | none => .error .missing

def openAt (fs : Files) (path : Text) : Except Failure Entry :=
  (fs.lookup path).mapError (.file "open" path)

def read (fs : Files) (path : Text) : Except Failure Text := do
  match ← fs.openAt path with
  | .file (.text t) => .ok t
  | .file (.table _) => .ok ""
  | .directory => .error (.file "read" path .isDirectory)

def put (fs : Files) (parts : List Text) (s : Stored) : Files :=
  ⟨fs.entries.filter (·.1 ≠ parts) ++ [(parts, s)]⟩

/-- Writes a file, new or in place of the one there.  A path that ends in a slash can only be that
of a directory. -/
def write (fs : Files) (path : Text) (s : Stored) : Except Failure Files := do
  let bare := path.dropEndWhile (· = byte '/')
  let parts ← (fs.resolve bare).mapError (.file "open" path)
  match fs.entry? parts with
  | some .directory => .error (.file "open" path .isDirectory)
  | some (.file _) =>
    if path.endsWith "/" then .error (.file "open" path .isDirectory) else .ok (fs.put parts s)
  | none =>
    match fs.entry? parts.dropLast with
    | some .directory =>
      if path.endsWith "/" then .error (.file "open" path .isDirectory) else .ok (fs.put parts s)
    | some (.file _) => .error (.file "open" path .notDirectory)
    | none => .error (.file "open" path .missing)

def ofList (files : List (Text × Text)) : Files :=
  files.foldl (fun fs (path, t) =>
    fs.put ((path.split "/").filter fun p => !p.isEmpty && p ≠ ".") (.text t)) {}

end Files

end Dataflow
