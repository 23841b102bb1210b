import Dataflow.Config.Settings

/-!
# Configuration files of assignments

A configuration can be a list of lines `name = value` or `name: value`.  A value in quotes may go
over lines.  Outside single quotes a dollar sign with a name stands for a variable of the
environment or, if there is none, for an earlier value of the file.
-/

namespace Dataflow.Assignment

/-! ### Lines -/

/-- The characters of a file.  With a byte order mark it is UTF-8 or UTF-16, and what is malformed
is replaced. -/
def decoded (t : Text) : Text :=
  let rec units (lowFirst : Bool) : List UInt8 → List Nat
    | a :: b :: r =>
      (if lowFirst then a.toNat + b.toNat * 256 else a.toNat * 256 + b.toNat) :: units lowFirst r
    | [_] => [0xFFFD]
    | [] => []
  let rec chars : List Nat → List Char
    | n :: m :: r =>
      if n / 1024 = 0x36 && m / 1024 = 0x37 then
        Char.ofNat (0x10000 + n % 1024 * 1024 + m % 1024) :: chars r
      else if n / 2048 = 0x1B then '�' :: chars (m :: r)
      else Char.ofNat n :: chars (m :: r)
    | [n] => [if n / 2048 = 0x1B then '�' else Char.ofNat n]
    | [] => []
  match t.bytes with
  | 0xEF :: 0xBB :: 0xBF :: r => Text.ofChars (Text.chars ⟨r⟩)
  | 0xFF :: 0xFE :: r => Text.ofChars (chars (units true r))
  | 0xFE :: 0xFF :: r => Text.ofChars (chars (units false r))
  | _ => t

def linesOf (t : Text) : List Text :=
  let t := (t.replaceAll "\r\n" "\n").replaceAll "\r" "\n"
  (t.stripEnd "\n").split "\n"

def lastIndex? (b : UInt8) (bs : List UInt8) : Option Nat :=
  (List.range bs.length).reverse.find? fun i => bs[i]? = some b

/-- The quote that the value of a line opens and does not close. -/
def openQuote? (line : Text) : Option UInt8 := do
  let (_, v) ← (line.cut? "=") <|> (line.cut? ":")
  let i := line.length - v.length - 1
  if i = 0 || v.isEmpty then none
  let v := v.trim
  let q ← v.bytes.head?
  if q ≠ byte '"' && q ≠ 39 then none
  match lastIndex? q ((v.drop 1).trim).bytes with
  | some j => if v.bytes[j]? = some (byte '\\') then some q else none
  | none => some q

def closed? (quote : UInt8) (line : Text) : List Text → Option (Text × List Text)
  | [] => none
  | l :: ls =>
    let line := line ++ "\n" ++ l
    match lastIndex? quote l.bytes with
    | some i =>
      if 0 < i && l.bytes[i - 1]? = some (byte '\\') then closed? quote line ls
      else some (line, ls)
    | none => closed? quote line ls

/-- The statements of a file: lines that are neither empty nor comments, each with the lines that
its value goes over.  `fuel` bounds their number. -/
def statements? : Nat → List Text → Option (List Text)
  | 0, _ => none
  | _, [] => some []
  | fuel + 1, l :: ls => do
    let line := l.trim
    if line.isEmpty || line.startsWith "#" then statements? fuel ls
    else
      let (line, ls) ← match openQuote? line with
        | some q => closed? q line ls
        | none => some (line, ls)
      return line :: (← statements? fuel ls)

/-! ### Values -/

def isSpace (b : UInt8) : Bool := b = 32 || b = 9 || b = 10 || b = 12 || b = 13

def isEnd (bs : List UInt8) : Bool :=
  match bs.dropWhile isSpace with
  | [] => true
  | b :: r => b = byte '#' && !r.contains 10

/-- A text in quotes at the front, the longest one that only a comment follows. -/
def quotedValue? (quote : UInt8) (bs : List UInt8) : Option (List UInt8) :=
  if bs.head? ≠ some quote then none
  else
    ((List.range bs.length).reverse.find? fun i =>
      0 < i && bs[i]? = some quote && isEnd (bs.drop (i + 1))).map fun i => bs.take (i + 1)

def written? (bs : List UInt8) : Option (List UInt8) :=
  let plain := bs.takeWhile fun b => b ≠ byte '#' && b ≠ 10
  quotedValue? 39 bs <|> quotedValue? (byte '"') bs
    <|> (if isEnd (bs.drop plain.length) then some plain else none)

def afterColon? : Nat → List UInt8 → Option (List UInt8)
  | 0, _ => none
  | blanks + 1, bs =>
    match bs with
    | b :: r => if isSpace b then written? r <|> afterColon? blanks r else none
    | [] => none

def assignment? (line : Text) : Option (Text × List UInt8) :=
  let isName (b : UInt8) : Bool :=
    Byte.isDigit b || Byte.isLower b || Byte.isUpper b || b = byte '_' || b = byte '.'
  let from? (bs : List UInt8) : Option (Text × List UInt8) := do
    let name := bs.takeWhile isName
    let rest := bs.drop name.length
    if name.isEmpty then none
    let v ← match rest.dropWhile isSpace with
      | 61 :: r => written? (r.dropWhile isSpace)
      | _ => match rest with
        | 58 :: r => afterColon? r.length r
        | _ => none
    return (⟨name⟩, v)
  let bs := line.bytes.dropWhile isSpace
  let exported : Option (List UInt8) := do
    let r ← Text.afterBytes (Text.bytes "export") bs
    if r.head?.any isSpace then some (r.dropWhile isSpace) else none
  (exported.bind from?) <|> from? bs

/-- The bytes with backslashes taken away, except before a dollar sign. -/
def unescaped : List UInt8 → List UInt8
  | 92 :: b :: r => if b = byte '$' then 92 :: unescaped (b :: r) else b :: unescaped r
  | b :: r => b :: unescaped r
  | [] => []

/-- The name of a variable behind a dollar sign, all that belongs to it, and what follows. -/
def variableAt (bs : List UInt8) : Text × List UInt8 × List UInt8 :=
  let isName (b : UInt8) : Bool := Byte.isUpper b || Byte.isDigit b || b = byte '_'
  let opening := bs.takeWhile (· = 0x7B) |>.take 1
  let name := (bs.drop opening.length).takeWhile isName
  let rest := bs.drop (opening.length + name.length)
  let closing := rest.takeWhile (· = 0x7D) |>.take 1
  (⟨name⟩, opening ++ name ++ closing, rest.drop closing.length)

/-- Puts variables in the place of their names; a backslash before a dollar sign protects it.
`fuel` bounds the steps. -/
def expand (lookup : Text → Text) : Nat → List UInt8 → List UInt8
  | 0, bs => bs
  | _, [] => []
  | fuel + 1, b :: r =>
    if b = byte '\\' && r.head? = some (byte '$') then
      let (_, own, rest) := variableAt (r.drop 1)
      byte '$' :: own ++ expand lookup fuel rest
    else if b = byte '$' then
      let (name, own, rest) := variableAt r
      (if name.isEmpty then b :: own else (lookup name).bytes) ++ expand lookup fuel rest
    else b :: expand lookup fuel r

def meaning (lookup : Text → Text) (written : List UInt8) : Text :=
  let t := (⟨written⟩ : Text).trim
  let inside (q : UInt8) : Option Text :=
    if 2 ≤ t.length && t.bytes.head? = some q && t.bytes.getLast? = some q then
      some ((t.drop 1).take (t.length - 2))
    else none
  let expanded (t : Text) : Text := ⟨expand lookup t.length t.bytes⟩
  match inside (byte '"'), inside 39 with
  | some v, _ =>
    expanded ⟨unescaped ((v.replaceAll "\\n" "\n").replaceAll "\\r" "\r").bytes⟩
  | none, some v => v
  | none, none => expanded t

def read? (environment : List (Text × Text)) (t : Text) : Option Row := do
  let lines := linesOf (decoded t)
  let statements ← statements? (lines.length + 1) lines
  let entries ← statements.foldlM (fun (entries : List (Text × Text)) line => do
    let (name, written) ← assignment? line
    let lookup (v : Text) : Text :=
      ((Fields.get? environment v) <|> (Fields.get? entries v)).getD ""
    return Fields.set name (meaning lookup written) entries) []
  return entries.map fun (k, v) => (k, .text v)

end Dataflow.Assignment
