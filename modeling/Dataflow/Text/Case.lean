import Dataflow.Text.Property
import Dataflow.Text.Scalar

/-!
# Upper and lower case

The case of characters: the ASCII rule below U+0080, and Unicode's simple mappings from there on, one
character for one.
-/

namespace Dataflow

/-- Characters at a fixed distance from their other case: the first and the last of them, the step
from one to the next, and the distance. -/
structure CaseRun where
  first : Nat
  last : Nat
  step : Nat
  distance : Int

namespace CaseRun

/-- The runs of a list of numbers, three for each: how far it starts behind the start of the one before, how
far it goes, and its distance: one more than twice that to characters behind, and twice that to characters
before.  Zero stands for runs in which each upper case letter stands right before its lower case. -/
def ofNumbers : Nat → List Nat → List CaseRun
  | start, gap :: span :: code :: rest =>
    let first := start + gap
    let distance : Int := if code % 2 = 1 then code / 2 else -(code / 2 : Nat)
    (if code = 0 then ⟨first, first + span, 2, 1⟩ else ⟨first, first + span, 1, distance⟩) :: ofNumbers first rest
  | _, _ => []

def holds (r : CaseRun) (c : Char) : Bool :=
  r.first ≤ c.toNat && c.toNat ≤ r.last && (c.toNat - r.first) % r.step = 0

def apply (runs : List CaseRun) (c : Char) : Char :=
  match runs.find? (·.holds c) with
  | some r => Char.ofNat (c.toNat + r.distance).toNat
  | none => c

def inverse (r : CaseRun) : CaseRun :=
  ⟨(r.first + r.distance).toNat, (r.last + r.distance).toNat, r.step, -r.distance⟩

end CaseRun

namespace Text

/-- The runs of characters above ASCII that have a lower case of their own. -/
def lowerRuns : List CaseRun := CaseRun.ofNumbers 0 (numbersFrom 0 (String.toList
  ("hKWcNYGcNbObUAbWApICEAHOARbSAbUAjIBEAIAqFBCAEApXBADCBpVCADDAgDBApPBApRBADCApVBApZCAqHBAqDBADEAqHBAqLCAqN" ++
   "BEAGAqVBADCAqVDADCAqVBADCBqTCCAEAqXBADEADIAFBADCAFBADCAFBQATQATAFBCAEAhMBAeIBbMAbOAkACQAYAbfyLBADCAmOBA" ++
   "bfyFDADCApABAfJBAfNBIAlMCAGADJAiZHAcZCCcXEAeZCBeXDQcNSIcNbSARJWAbCAeQDADCAOBADDCkADPgFQbFcNdCbGAbQcAAcCA" ++
   "bFBMAPdQAdTbLdTeiPbLvmVbNAvmVGAvmVbbVdBekzPdCFRdgRADHbQixKbTCixKmLfSAgCAwnUCdQAeAHQQFQQHQQHQQFQRAQCAQCAQ" ++
   "CAQJHQbGHQQHQQHQQBQCBfSCASMDgQEASMBQCBhSOBQCBiQCAOMBjWCBjSCASlMAwgGEAyuWBAylOHAcFbUPbHbJADbfNZcBctUbVdT" ++
   "dSADCAbfuKBAlhKBAbftEDEAGAbfxGBAbfuWBAbfxMBAbfxKCADDADJBbfzYCdUAeDCAHADbtyKbSAcMbAAgGMAQcIAcTCAEAeanWBIA" ++
   "NADCAevcIDCAGSAUAeveMBAevfIBAevfABAeveGBAeveMCAevaQBAevcMBAevaWBActLBOAQAdSBAeveKBAearWBCAEAevhEBOAQA" ++
   "evxYZADbhaIZcNbvZbNdDgUbJdDhKKdBMOdBQGdBIBdBcqEbYeZiAVcNehKbFcNbglCbFcNdSYcDbuiYbHcR")))

/-- The runs of characters above ASCII that have an upper case of their own: some that share it with
others, and those of the lower case taken backwards. -/
def upperRuns : List CaseRun := CaseRun.ofNumbers 0 (numbersFrom 0 (String.toList
  ("gZAcfFbQABdEArWdAAxCcSACDACDACbNACnBAgNeVAcKOAeUBAeKEAdQBAeEbAAgQBAgEEAhKjhRAsnCBAsnABAsmIBAsmEBAsmEBA" ++
   "smGBAslSBAshMBAeaiVuLAeOlFAviG"))) ++ lowerRuns.map CaseRun.inverse

def lowerChar (c : Char) : Char :=
  if c.toNat < 0x80 then c.toLower else CaseRun.apply lowerRuns c

def upperChar (c : Char) : Char :=
  if c.toNat < 0x80 then c.toUpper else CaseRun.apply upperRuns c

/-- A text in lower case.  Where it is not all ASCII, stray bytes become the replacement
character. -/
def lowercase (t : Text) : Text :=
  if t.all (· < 0x80) then t.toLower else ofChars (t.chars.map lowerChar)

/-- A text in upper case.  Where it is not all ASCII, stray bytes become the replacement
character. -/
def uppercase (t : Text) : Text :=
  if t.all (· < 0x80) then t.toUpper else ofChars (t.chars.map upperChar)

end Text

end Dataflow
