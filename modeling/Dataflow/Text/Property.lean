/-!
# Character properties

The characters, from U+0080 on, that Unicode classes as letters, as decimal digits and as visible:
letters, marks, numbers, punctuation and symbols.  A class is given by its runs: how many characters
are not in it, how many are, and so on in turn, as a text of numbers.  Decimal digits stand ten in a
row.  Below U+0080 the classes are the ASCII ones.
-/

namespace Dataflow.Text

/-- The numbers that a text holds in base 26, where a capital letter is the last digit of a number. -/
def numbersFrom : Nat → List Char → List Nat
  | _, [] => []
  | n, c :: cs =>
    if c.isUpper then (n + (c.toNat - 65)) :: numbersFrom 0 cs else numbersFrom (26 * (n + (c.toNat - 97))) cs

def letterRuns : List Nat := numbersFrom 0 (String.toList
  ("bQBKBEBFXBbFBrQEMOFHBBBeZFBCCEBBGBBDBBBUBdFBfJIgKBbMCBGbPcTbBEEbTbRbJCBdVBBPCHCKDCBQBBbEbDdLLBYbHJCEBFWEBJBD" ++
   "BXZHLFYBHQbQcGcCDBSBHKPQEICCCWBHBBDEDBQBNCBDOCKBIGECCWBHBCBCBCbFEBBTDQJBDBWBHBCBFDBSBPCXBLICCCWBHBCBFDBbECBD" ++
   "PBRBBGDDBEDCBBBCDCDDDMWBcAIBDBXBQDBbADBCCCbEBEIBDBXBKBFDBbEDBCPCRJBDBbPCBQBFDIDYGFSDYBJBBCHcGbWBCMHcGCBBBFBY" ++
   "BBBKBCJBCFBBVEbGBcLIBbKbBFeLbRUBQGEEDBDCHDENMBRbMBBFBCbRBmVBECHBBBECbPBECbHBECHBBBECPBcFBECcPbLQQdICGDxWCRB" ++
   "bAFcXGIHSNTOSONBDPcAbJBEBcPdLHFCbIBBFcSKbFbXbECFLbSEbAcCXJcBdEBdPbVRIcCbENCKbSbAbKbPDKbKCLFbRCDbPEBGBCDBFhK" ++
   "cMkSCGCbMCGCIBBBBBBBbFCcBBHBBDDBHDECGENFDBHeMBNBQNdXBEBCKBBDFGBBBBBBEBLCEFFEBcACdzFiVGEDCMbMBBFBCcEHBQXJHBHB" ++
   "HBHBHBHBHBHdCBsBCbQFFCEdIGDBdMBEFbRBdQRbGbWQtSjtOcMbguFcPbUCkJDQKCUbVQbFCcSbXJCdZCdEURBDBEBXbDcAObYcKGDBBCL" ++
   "bCKXZbDHbVbCBQFBKKFBbPXDBIUXDBDbYBBDCCFCBBBYDCLHDMGCGCGJHBHBbRBOGeLbDqnSMXEbXmnCoCCeCbMHMFFBBKBNBFBBBCBCBeE" ++
   "bHnZScMCcCbOMeMFBfFbKbAGbALdLDGCGCGCDbJMBbABTBCBPCObIeToZbDDbXbVbGNUBIGbMKbECbKEIbWgCSbKEbKEbOIcAMLBPBHBCBLB" ++
   "PBHBCDcAMlZJWKIYGBbQBJcRGCBBbSBCDBCXKXJbFcNTBCKWKbAGbAbMcEGCcMBPEBDBbDbQbDDbDbJIBbCbBcCKWKTNSeGcVcDbZNbZNbK" ++
   "bMbCJXjQbQGCQGcEbDKBIWbQSbUVbBXMcBcFCCBNbTbGZbAbKbDBCBIbJDBMbWOEVBBBbJSBZTCcLHBBBEBPBKHbVbMICCCWBHBCBFDBSBMF" ++
   "bEKBBCBBbMBBZBBBbScBSEUDbEbWUCBBhCbVbPEbKbWUBcHbRNBcTbBbLHhDbSeMcMbFICBCIBCBYPBBBdQICbNQBBBbCBKbOHBVBLbUTBS" ++
   "cVhRbHbFJBbLRBbXbEeIHBCBbMVBZGBCBbGOBXbSkATPBBNBbIeUBdBbjMiWhOdxKdTPbpGRGZfxRFwLkdDbEcpUvXHbFRdBRbESbWQEbFVF" ++
   "TqQbTiDcMbGZCZbScXFBcONcMCBBOCMkxYbPbGdTeLmwREBHBCBlFPBbDDCBOEIpGdkUeDFNDJHKiwKdHBcTBCCBCCCEBMBBBHBcNBECIBHB" ++
   "bCBEBFBBDHBnCCZBZBbFBZBbFBZBbFBZBbFBZBIcsYbFGGkBcKfQbTKHQBmJbESbSsQbCiUbECBhZbFBDBCBHCFJCiQHBEBCBPBhPcHcQHB" ++
   "buIEBbBBCBBCBBKBEBBBBGBEBBBBBBDBCBBCBBBBBBBBBBCBBCEBHBEBEBBBKBRFDBFBRgoAclfCbGgmOCioCClbLPxYdqWuWcfYhhZFmoO"))

def digitRuns : List Nat := List.flatMap (fun gap => [gap, 10]) (numbersFrom 0 (String.toList
  ("cfWfEhQpWeOeOeOeOeOeOeOeOeOdSeOcSkScSctQbMlOeYgKGhAdIfEGcaeObaCbMhQWdIpQbfmCccKdfYGbeQeYcIfOkSnEeOoKdYGAcYqG" ++
   "dYzMdIjMcScCnUyyGdmCdIfEuObkdYecQAAAAdnCqGtIjNbgVhbA")))

/-- Runs of visible characters, in which all are that are no letters. -/
def signRuns : List Nat := numbersFrom 0 (String.toList
  ("bHMBbbKIBFEeGfSiAbXCDBcDbRCRWBhKBbWDcGdNLPcGDbXCPbADCBbPBOcXBgFcEJCCCDJBKCCZCDcEBBFECCDDBURKDcEKBDBDUCCMIGBD" ++
   "cEJCCCDHDKCCSKBcHFDDBEJBOVFFcDJBDBEHCLCCKHOcDJBDBEHCLCCKDBMEcDKBDBGHNCUHDcSBEGBBBIGKCDcIKEbDdHMLHBKbNcLbXbNB" ++
   "bKBPBNdCeNdNBxLbGTKdYxZbSCdAGbHEbCFbBCbECcMbQCKGKGOBLeDbLeOMEMEBDMeYLDcKCcNBbDCLGKGOCbUCMUcRJgKIcIDPGbWcMII" ++
   "bQhQcMrDFLDNTNCRYIbVRBDbBRbIObHPfKEzQWLVcrSCoQHHeIBOBdSeWbIbABdLMiGbAQBcLdLdVfSdIJbWBkoMbguIcDcDlOcRfHIfJeP" ++
   "bRDKcGEIcSIMGeMLBbGdACKEbCbVOMLCKCdYbCZdWRePLCKbdzGMfGuWbSbEGbZBTBEfTdXeSHBHNCjYDEbTDdKBNDBbVbUiSbCbKEbDKbRF" ++
   "bKBbWGhUKhPBbcPbPbNJcXbHDBbFBeUUCbYBCFEbODEKHJbKbJbObFEMcOHYIYIZEMHmSbUIKGKbFGbFCiAbFbSDbIJbHbTbFUbOIcHHcAdA" ++
   "EbJKcKBFbTKGcBBRbSDKdSBUcDWdZBcBMFKGEcDKCCCDJBKCCHDFcPJBBCBBEBKBCICdEbNBCdDXJKiFHCbMdEUMKGNcKPGKGUcFPEQjCQgI" ++
   "TcJGBCCMJKePHCLbCcTJdEdPKdIIeRBOKcBIBOKbDDCbGWBOeSGDBBCBJIKbWFBCBFIKcCKkFGHEbWHDbDdXbYNBbnKeHBFejCCbqJWqyYbC" ++
   "dmCKECdCKbMGcGWKKBHuDNkCbBgYcFHEdBDLHbdaREfvKjTDqUGXPRPbUCXJeMcIjMKbNCcWIeIVcSeSUMUMdJJZbgIjZKbbAPFBPcaIHBRC" ++
   "HBCBFdWBgEHJKFBnMBcJOFBsYOjKNEBiTTrXQeFHFKECbeFcQcYcJqSCkKbSEdWMPCPBPBbLKgScEbDNbSEJHCOGfYblXDRDNDiKGMEBPME" ++
   "cEIKGbOIbECMECOJbNnGIOCNDLDcFBBEQCMEKHfRBdZbsvgVjG"))

/-- Whether a character is in a class, by the number of characters before it. -/
def inRuns : List Nat → Nat → Bool
  | gap :: run :: rest, n => gap ≤ n && (n < gap + run || inRuns rest (n - gap - run))
  | _, _ => false

def isLetter (c : Char) : Bool :=
  if c.toNat < 0x80 then c.isAlpha else inRuns letterRuns (c.toNat - 0x80)

def isDigit (c : Char) : Bool :=
  if c.toNat < 0x80 then c.isDigit else inRuns digitRuns (c.toNat - 0x80)

/-- A character that is shown as itself inside quotes: visible, or the ASCII blank. -/
def isPrintable (c : Char) : Bool :=
  if c.toNat < 0x80 then 0x20 ≤ c.toNat && c.toNat < 0x7F
  else isLetter c || inRuns signRuns (c.toNat - 0x80)

end Dataflow.Text
