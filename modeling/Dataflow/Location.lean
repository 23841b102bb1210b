import Dataflow.Text.Case
import Dataflow.Text.Path

/-!
# Locations

A location is what a source reads or a sink writes: a scheme and a path, and for files the format
they are kept in.
-/

namespace Dataflow

inductive FileFormat where
  | csv
  | jsonl
  | parquet
deriving DecidableEq

namespace FileFormat

def name : FileFormat → Text
  | csv => "csv"
  | jsonl => "jsonl"
  | parquet => "parquet"

def ofName? (n : Text) : Option FileFormat := [csv, jsonl, parquet].find? (·.name = n)

def ofPath? (path : Text) : Option FileFormat :=
  let e := path.extension.lowercase
  if e = ".csv" then some csv
  else if e = ".jsonl" || e = ".ndjson" then some jsonl
  else if e = ".parquet" then some parquet
  else none

end FileFormat

structure Location where
  uri : Text
  scheme : Text
  path : Text
  format : Option FileFormat
deriving DecidableEq

namespace Location

/-- Reads a location.  A scheme ends in `://` and may name a format; a path without a scheme is a
file if its extension is known. -/
def parse (uri : Text) : Location :=
  match uri.cut? "://" with
  | some (s, path) =>
    let scheme := s.lowercase
    let format : Option FileFormat :=
      if scheme = "file" then some ((FileFormat.ofPath? path).getD .jsonl)
      else if scheme.isEmpty then FileFormat.ofPath? path
      else FileFormat.ofName? scheme
    let scheme : Text := if scheme.isEmpty && format.isSome then "file" else scheme
    { uri, scheme, path, format }
  | none =>
    let format := FileFormat.ofPath? uri
    { uri, scheme := if format.isSome then "file" else "", path := uri, format }

def isFile (l : Location) : Bool := l.format.isSome

end Location

end Dataflow
