import Dataflow.Text.Scalar

/-!
# Comma-separated records

A record is a line of fields between commas.  A field may be quoted, and then hold commas, line ends
and doubled quotes.  Blank lines are no records.  Lines end in a line feed, or in a carriage return
and a line feed, which counts as one.

`Csv.records` reads a whole text.  A malformed record does not end the reading: what is left of its
line is passed over.
-/

namespace Dataflow.Csv

inductive Fault where
  /-- A quote in a field that is not quoted. -/
  | bareQuote
  /-- A quote that neither ends its field nor is doubled, or that is missing. -/
  | strayQuote
  /-- A number of fields other than that of the first record. -/
  | fieldCount
deriving DecidableEq

def Fault.text : Fault → Text
  | bareQuote => "bare \" in non-quoted-field"
  | strayQuote => "extraneous or missing \" in quoted-field"
  | fieldCount => "wrong number of fields"

def unifyLines : List UInt8 → List UInt8
  | [] => []
  | [b] => if b = byte '\r' then [] else [b]
  | a :: b :: rest =>
    if a = byte '\r' && b = byte '\n' then b :: unifyLines rest else a :: unifyLines (b :: rest)

inductive Mode where
  | start
  | field
  /-- In a field that is not quoted, which has a quote in it or not. -/
  | plain (quote : Bool)
  | quoted
  | closing
  | skip

/-- A reader: the records read, the fields and the bytes of the record at hand, last first. -/
structure Reader where
  mode : Mode := .start
  bytes : List UInt8 := []
  fields : List Text := []
  records : List (Except Fault (List Text)) := []

namespace Reader

def endField (r : Reader) : Reader :=
  { r with mode := .field, bytes := [], fields := ⟨r.bytes.reverse⟩ :: r.fields }

def endRecord (r : Reader) : Reader :=
  let r := r.endField
  { mode := .start, records := .ok r.fields.reverse :: r.records }

def fault (r : Reader) (f : Fault) (mode : Mode) : Reader :=
  { mode, records := .error f :: r.records }

def plain (r : Reader) (quote : Bool) (b : UInt8) : Reader :=
  if b = byte ',' then (if quote then r.fault .bareQuote .skip else r.endField)
  else if b = byte '\n' then (if quote then r.fault .bareQuote .start else r.endRecord)
  else { r with mode := .plain (quote || b = byte '"'), bytes := b :: r.bytes }

def step (r : Reader) (b : UInt8) : Reader :=
  match r.mode with
  | .start =>
    if b = byte '\n' then r
    else if b = byte '"' then { r with mode := .quoted }
    else r.plain false b
  | .field => if b = byte '"' then { r with mode := .quoted } else r.plain false b
  | .plain quote => r.plain quote b
  | .quoted =>
    if b = byte '"' then { r with mode := .closing } else { r with bytes := b :: r.bytes }
  | .closing =>
    if b = byte '"' then { r with mode := .quoted, bytes := b :: r.bytes }
    else if b = byte ',' then r.endField
    else if b = byte '\n' then r.endRecord
    else r.fault .strayQuote .skip
  | .skip => if b = byte '\n' then { r with mode := .start } else r

def finish (r : Reader) : List (Except Fault (List Text)) :=
  let r := match r.mode with
    | .start | .skip => r
    | .field | .plain false | .closing => r.endRecord
    | .plain true => r.fault .bareQuote .start
    | .quoted => r.fault .strayQuote .start
  r.records.reverse

end Reader

def records (t : Text) : List (Except Fault (List Text)) :=
  ((unifyLines t.bytes).foldl Reader.step {}).finish

def needsQuotes (t : Text) : Bool :=
  if t.isEmpty then false
  else if t = "\\." then true
  else t.any (fun b => b = byte '\n' || b = byte '\r' || b = byte '"' || b = byte ',')
    || (t.chars.head?.any Text.isBlank)

def writeField (t : Text) : Text :=
  if needsQuotes t then "\"" ++ t.replaceAll "\"" "\"\"" ++ "\"" else t

def writeRecord (fields : List Text) : Text := Text.join "," (fields.map writeField) ++ "\n"

end Dataflow.Csv
