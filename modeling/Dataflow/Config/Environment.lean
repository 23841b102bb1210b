import Dataflow.Config.Settings

/-!
# Environment variables

Variables come from the environment and from a file of assignments.  Those whose name starts with
that of the program are settings: an underscore in the rest of a name divides sections or belongs to
a name, so that each is tried under every key it may stand for.
-/

namespace Dataflow.Environment

abbrev Variables := List (Text × Text)

/-! ### Files of assignments -/

def isBlank (c : Char) : Bool :=
  c = ' ' || c = '\t' || c.val = 0x0B || c.val = 0x0C || c = '\r' || c.val = 0x85 || c.val = 0xA0

def latin (b : UInt8) : Char := Char.ofNat b.toNat

def isBlankByte (b : UInt8) : Bool := b < 0x80 && isBlank (latin b)

def statement : Nat → Text → Text
  | 0, t => t
  | fuel + 1, t =>
    let t := t.trimLeft
    if t.startsWith "#" then statement fuel (t.dropWhile (· ≠ 10)) else t

def withoutExport (t : Text) : Text :=
  match t.after? "export" with
  | some rest => if rest.bytes.head?.any isBlankByte then rest.dropWhile isBlankByte else t
  | none => t

/-- Whether a byte may be part of a name; each byte counts as the character of its number. -/
def isNamePart (b : UInt8) : Bool :=
  let c := latin b
  isBlank c || b = byte '_' || b = byte '.' || Text.isLetter c || Text.isDigit c
    || c.val = 0xB2 || c.val = 0xB3 || c.val = 0xB9 || (0xBC ≤ c.val && c.val ≤ 0xBE)

/-- The name before an equals sign or colon, and what follows; without a sign the name is empty. -/
def name? (t : Text) : Option (Text × Text) :=
  let t := withoutExport (t.dropWhile isBlankByte)
  let isSign (b : UInt8) : Bool := b = byte '=' || b = byte ':'
  let before := t.takeWhile fun b => !isSign b
  if !before.all isNamePart then none
  else
    let (name, rest) : Text × Text :=
      if before.length < t.length then (before.trimRight, t.drop (before.length + 1)) else ("", t)
    some (name, rest.dropWhile isBlankByte)

def reference (bs : List UInt8) : Text × List UInt8 :=
  let skip (c : Char) (bs : List UInt8) : List UInt8 := match bs with
    | b :: r => if b = byte c then r else b :: r
    | [] => []
  let bs := skip '\x7b' (skip '(' bs)
  let isName (b : UInt8) : Bool := Byte.isUpper b || Byte.isDigit b || b = byte '_'
  (⟨bs.takeWhile isName⟩, skip '\x7d' (bs.dropWhile isName))

/-- Puts variables in the place of references to them; a backslash protects a dollar sign. -/
def expand (vars : Variables) : Nat → List UInt8 → List UInt8
  | 0, bs => bs
  | _, [] => []
  | fuel + 1, b :: bs =>
    let (escaped, after) : Bool × List UInt8 := match b, bs with
      | 92, 36 :: r => (true, r)
      | _, bs => (false, bs)
    if escaped || b = byte '$' then
      let (name, rest) := reference after
      let used := after.take (after.length - rest.length)
      if escaped then byte '$' :: used ++ expand vars fuel rest
      else if name.isEmpty then b :: used ++ expand vars fuel rest
      else ((Fields.get? vars name).getD "").bytes ++ expand vars fuel rest
    else b :: expand vars fuel bs

def expanded (vars : Variables) (t : Text) : Text := ⟨expand vars t.length t.bytes⟩

def lineEscapes : List UInt8 → List UInt8
  | 92 :: b :: bs =>
    if b = byte 'n' then 10 :: lineEscapes bs
    else if b = byte 'r' then 13 :: lineEscapes bs
    else 92 :: b :: lineEscapes bs
  | b :: bs => b :: lineEscapes bs
  | [] => []

def plainEscapes : List UInt8 → List UInt8
  | 92 :: b :: bs => if b = byte '$' then 92 :: b :: plainEscapes bs else b :: plainEscapes bs
  | b :: bs => b :: plainEscapes bs
  | [] => []

/-- The text before the last sign of comment that follows a blank. -/
def beforeComment (cs : List Char) : List Char :=
  let at? := (List.range cs.length).reverse.find? fun i =>
    0 < i && cs[i]? = some '#' && (cs[i - 1]?).any isBlank
  match at? with
  | some i => cs.take i
  | none => cs

def trimBlanks (cs : List Char) : List Char :=
  ((cs.dropWhile isBlank).reverse.dropWhile isBlank).reverse

def closing? (quote : UInt8) (bs : List UInt8) : Option Nat :=
  (List.range bs.length).find? fun i =>
    0 < i && bs[i]? = some quote && bs[i - 1]? ≠ some (byte '\\')

/-- A value and what follows it.  A value in quotes may go over lines; any other ends with its line. -/
def value? (vars : Variables) (t : Text) : Option (Text × Text) :=
  match t.bytes.head? with
  | none => some ("", "")
  | some q =>
    if q = byte '"' || q = byte '\'' then do
      let i ← closing? q t.bytes
      let inner := ((t.take i).dropEndWhile (· = q)).dropWhile (· = q)
      let v : Text :=
        if q = byte '"' then expanded vars ⟨plainEscapes (lineEscapes inner.bytes)⟩ else inner
      return (v, t.drop (i + 1))
    else
      let line := t.takeWhile fun b => b ≠ 10 && b ≠ 13
      let v := Text.ofChars (trimBlanks (beforeComment line.chars))
      some (expanded vars v, t.drop line.length)

def assignments? : Nat → Variables → Text → Option Variables
  | 0, vars, _ => some vars
  | fuel + 1, vars, t =>
    let t := statement (t.length + 1) t
    if t.isEmpty then some vars
    else do
      let (name, rest) ← name? t
      let (v, rest) ← value? vars rest
      assignments? fuel (Fields.set name v vars) rest

def parse? (t : Text) : Option Variables :=
  let t := t.replaceAll "\r\n" "\n"
  assignments? (t.length + 1) [] t

/-! ### Variables as settings -/

def mark : Text := "FLOWC_"

def known : List Text :=
  let names : List Text :=
    ["NAME", "ENVIRONMENT", "LOGGING_LEVEL", "LOGGING_FORMAT", "LOGGING_OUTPUT", "LOGGING_NO_COLOR",
     "LOGGING_TIMESTAMP", "LOGGING_CALLER", "COMPILER_DEFAULT_TARGET", "COMPILER_PLUGINS",
     "NATIVE_ECHO_SINK", "NATIVE_WORKERS", "VECTOR_CHUNK_SIZE", "TRACING_ENABLED",
     "TRACING_ENDPOINT", "TRACING_INSECURE", "TRACING_SAMPLE_RATE", "METRICS_ENABLED",
     "METRICS_ENDPOINT", "METRICS_INSECURE", "METRICS_INTERVAL"]
  names.map fun n => mark ++ n

/-- The paths that a name may stand for: the whole name, every part a section, and every way to cut
the name in two of which one half is sections and the other a name. -/
def paths (name : Text) : List (List Text) :=
  let name := name.lowercase
  let parts := name.split "_"
  let whole (ps : List Text) : Text := Text.join "_" ps
  if parts.length ≤ 1 then [name.split "."]
  else
    let cuts := (List.range parts.length).drop 1 |>.flatMap fun i =>
      let head := parts.take i
      let tail := parts.drop i
      [Text.join "." head ++ "." ++ whole tail, whole head ++ "." ++ Text.join "." tail]
    ((name :: Text.join "." parts :: cuts).map fun (k : Text) => k.split ".").eraseDups

/-- Enters a variable into settings, if it is one. -/
def bind (r : Row) (v : Text × Text) : Row :=
  match v.1.after? mark with
  | none => r
  | some name =>
    if name.isEmpty then r
    else (paths name).foldl (fun r path => Settings.setAt path (.text v.2) r) r

def settings (vars : Variables) : Row := vars.foldl bind []

def withMissing (vars more : Variables) : Variables :=
  more.foldl (fun vars (k, v) => if Fields.has vars k then vars else vars ++ [(k, v)]) vars

end Dataflow.Environment
