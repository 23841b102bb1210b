import Dataflow.Text.Case

/-!
# Addresses

Which texts are addresses of documents and of mail, by their grammars.  The host of an address is a
name or, in brackets, a literal address.
-/

namespace Dataflow

namespace Url

/-- Every percent sign opens an escaped byte that is allowed. -/
def escapesFit (allowed : Nat → Nat → Bool) : List UInt8 → Bool
  | [] => true
  | b :: r =>
    if b = byte '%' then
      match r with
      | c :: d :: r => match Byte.hexValue? c, Byte.hexValue? d with
        | some m, some n => allowed m n && escapesFit allowed r
        | _, _ => false
      | _ => false
    else escapesFit allowed r

def isAlnum (b : UInt8) : Bool := Byte.isDigit b || Byte.isLower b || Byte.isUpper b

def isOneOf (marks : Text) (b : UInt8) : Bool := isAlnum b || marks.bytes.contains b || 0x80 ≤ b

/-- The bytes of a host; escapes stand only for a percent sign or for bytes outside ASCII. -/
def hostFits (bs : List UInt8) : Bool :=
  bs.all (isOneOf "-_.~!$&'()*+,;=:[]<>\"%")
    && escapesFit (fun m n => 8 ≤ m || (m = 2 && n = 5)) bs

/-- The bytes of the zone of a host in brackets; escapes stand for bytes of a host and blanks. -/
def zoneFits (bs : List UInt8) : Bool :=
  bs.all (isOneOf "-_.~!$&'()*+,;=:[]<>\"%")
    && escapesFit (fun m n =>
      let b := (m * 16 + n).toUInt8
      b = 32 || (b < 0x80 && isOneOf "-_.~!$&'()*+,;=:[]<>\"%" b)) bs

def isIpv4 (t : Text) : Bool :=
  let parts := t.split "."
  parts.length = 4 && parts.all fun p =>
    p.length ≤ 3 && !(1 < p.length && p.startsWith "0") && p.toNat?.any (· < 256)

/-- The number of 16-bit groups that parts between colons stand for; the last one may be an IPv4
address. -/
def groups? : List Text → Option Nat
  | [] => some 0
  | [p] => if p.contains "." then (if isIpv4 p then some 2 else none) else group? p
  | p :: ps => do return (← group? p) + (← groups? ps)
where
  group? (p : Text) : Option Nat :=
    if 1 ≤ p.length && p.length ≤ 4 && p.all (fun b => (Byte.hexValue? b).isSome) then some 1
    else none

def isIpv6 (t : Text) : Bool :=
  let parts (t : Text) : List Text := if t.isEmpty then [] else t.split ":"
  match t.split "::" with
  | [a] => groups? (parts a) = some 8
  | [a, b] =>
    match groups? (parts a), groups? (parts b) with
    | some m, some n => m + n ≤ 7 && !a.contains "."
    | _, _ => false
  | _ => false

/-- The address between brackets, with an optional zone behind an escaped percent sign. -/
def literalFits (t : Text) : Bool :=
  match t.cut? "%25" with
  | some (a, zone) => isIpv6 a && !zone.isEmpty && zoneFits zone.bytes
  | none => isIpv6 t

def numberFits : List UInt8 → Bool
  | [] => true
  | b :: ds => b = byte ':' && ds.all Byte.isDigit

def authorityHostFits (host : Text) : Bool :=
  if host.contains "[" then
    match host.cutLast? (byte ']') with
    | some (address, number) =>
      numberFits number.bytes && (address.after? "[").any literalFits
    | none => false
  else
    match host.cutLast? (byte ':') with
    | some (name, number) => number.all Byte.isDigit && !name.contains ":" && hostFits name.bytes
    | none => hostFits host.bytes

/-- The part of an address between two slashes and the next. -/
def authorityFits (t : Text) : Bool :=
  match t.cutLast? (byte '@') with
  | none => authorityHostFits t
  | some (user, host) =>
    user.bytes.all (fun b => b < 0x80 && isOneOf "-._:~!$&'()*+,;=%@" b)
      && escapesFit (fun _ _ => true) user.bytes && authorityHostFits host

def scheme? (t : Text) : Option (Text × Text) :=
  match t.cut? ":" with
  | some (s, rest) =>
    if (s.bytes.head?.any fun b => Byte.isLower b || Byte.isUpper b)
        && s.all (fun b => isAlnum b || b = byte '+' || b = byte '-' || b = byte '.') then
      some (s, rest)
    else none
  | none => none

/-- What follows the scheme of an address, as far as it matters: a part without a leading slash, or
the host; `none` where the address is malformed. -/
def rest? (rest : Text) : Option (Text × Text) :=
  let path := ((rest.cut? "?").map Prod.fst).getD rest
  if !path.startsWith "/" then some (path, "")
  else
    let (authority, path) := match path.after? "//" with
      | some r => match r.cut? "/" with
        | some (a, p) => (a, "/" ++ p)
        | none => (r, "")
      | none => ("", path)
    if authorityFits authority && escapesFit (fun _ _ => true) path.bytes then
      some ("", ((authority.cutLast? (byte '@')).map Prod.snd).getD authority)
    else none

end Url

namespace Text

/-- An address: a scheme, and behind it a host, a fragment or something without a leading slash.  A
file needs no host. -/
def isUrl (t : Text) : Bool :=
  let t := t.lowercase
  let (main, fragment) := (t.cut? "#").getD (t, "")
  !main.any (fun b => b < 0x20 || b = 0x7F) && Url.escapesFit (fun _ _ => true) fragment.bytes &&
    match Url.scheme? main with
    | none => false
    | some (scheme, rest) => match Url.rest? rest with
      | none => false
      | some (rootless, host) =>
        (scheme = "file" && rest.startsWith "/")
          || !(rootless.isEmpty && host.isEmpty && fragment.isEmpty)

def isMailLetter (c : Char) : Bool :=
  let n := c.toNat
  (0xA0 ≤ n && n ≤ 0xD7FF) || (0xF900 ≤ n && n ≤ 0xFDCF) || (0xFDF0 ≤ n && n ≤ 0xFFEF)

/-- Begins and ends with characters of one class, with domain characters in between. -/
def isDomainPart (ends : Char → Bool) (cs : List Char) : Bool :=
  (cs.head?.any ends) && (cs.getLast?.any ends)
    && cs.all fun c => c.isAlphanum || isMailLetter c || c = '-' || c = '.' || c = '~'

/-- Whether a domain has a dot with a name before it and letters at both ends behind it. -/
def hasTopLevel : List Char → List Char → Bool
  | _, [] => false
  | before, c :: cs =>
    (c = '.' && isDomainPart (fun c => c.isAlphanum || isMailLetter c) before.reverse
      && isDomainPart (fun c => c.isAlpha || isMailLetter c) cs)
      || hasTopLevel (c :: before) cs

def isMailDomain (t : Text) : Bool := !t.contains ".." && hasTopLevel [] t.chars

/-- The rest behind a quoted name, after its opening quote; a backslash protects a character.
The flag tells that the name has characters. -/
def afterQuotedName? : List Piece → Bool → Option (List Piece)
  | [], _ => none
  | .stray _ :: _, _ => none
  | .char c :: r, any =>
    let isShown (c : Char) : Bool := c = '\t' || (' ' ≤ c && c ≤ '~') || isMailLetter c
    if c = '"' then (if any then some r else none)
    else if c = '\\' then
      match r with
      | .char c :: r => if isShown c then afterQuotedName? r true else none
      | _ => none
    else if isShown c then afterQuotedName? r true
    else none

/-- A mail address: words with dots between them or a quoted name, a sign, and a domain. -/
def isEmail (t : Text) : Bool :=
  match t.after? "\"" with
  | some r =>
    match afterQuotedName? r.pieces false with
    | some (.char '@' :: domain) => isMailDomain (ofPieces domain)
    | _ => false
  | none =>
    match t.split "@" with
    | [name, domain] =>
      (name.split ".").all (fun w => !w.isEmpty && w.chars.all fun c =>
        c.isAlphanum || isMailLetter c || "!#$%&'*+-/=?^_\x60\x7b|\x7d~".toList.contains c)
        && isMailDomain domain
    | _ => false

end Text

end Dataflow
