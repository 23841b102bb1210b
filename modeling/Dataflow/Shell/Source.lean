import Dataflow.Shell.Command

/-!
# Scripts as text

`Source.line?` reads the commands of the next line of a script, which is more than one line where a
command goes on.  A script is read line by line, so what is wrong in a later line does not matter
before that line is reached.  Every reader has some fuel, which bounds how often readers call one
another.
-/

namespace Dataflow.Shell

inductive Fault where
  | unexpected (found : Text) (wanted : Option Text)
  | openQuotes
  | openBackQuotes
  | missing (closing : Text)
  | loopName
  | functionName
  | streamNumber
deriving DecidableEq

def Fault.message : Fault → Text
  | unexpected found none => found ++ " unexpected"
  | unexpected found (some wanted) => found ++ " unexpected (expecting " ++ wanted ++ ")"
  | openQuotes => "Unterminated quoted string"
  | openBackQuotes => "EOF in backquote substitution"
  | missing closing => "Missing '" ++ closing ++ "'"
  | loopName => "Bad for loop variable"
  | functionName => "Bad function name"
  | streamNumber => "Bad fd number"

inductive Token where
  | finish
  | newline
  | mark (t : Text)
  | redirect (stream : Option Nat) (sign : Text)
  | word (quoted : Bool) (w : Word)

/-- The words that have a meaning where a command may start. -/
def keywords : List Text :=
  ["!", "case", "do", "done", "elif", "else", "esac", "fi", "for", "if", "in", "then", "until",
   "while", "\x7b", "\x7d"]

namespace Token

def keyword? : Token → Option Text
  | word false w => (bare? w).filter keywords.contains
  | _ => none

def isKeyword (t : Token) (k : Text) : Bool := t.keyword? = some k

def isMark : Token → Text → Bool
  | mark m, t => m = t
  | _, _ => false

/-- What a token is called in a complaint, where keywords have no meaning. -/
def plainTitle : Token → Text
  | finish => "end of file"
  | newline => "newline"
  | mark m => "\"" ++ m ++ "\""
  | redirect _ _ => "redirection"
  | word _ _ => "word"

def title (t : Token) : Text :=
  match t.keyword? with
  | some k => "\"" ++ k ++ "\""
  | none => t.plainTitle

def endsList (t : Token) : Bool :=
  match t with
  | finish => true
  | mark m => m = ")" || m = ";;"
  | _ =>
    let closing : List Text := ["do", "done", "elif", "else", "esac", "fi", "then", "\x7d"]
    t.keyword?.any closing.contains

end Token

structure Source where
  bytes : List UInt8
  line : Nat := 1
  /-- The lines that were taken from behind the line at hand. -/
  taken : Nat := 0
  held : Option Token := none

abbrev Parse := StateT Source (Except (Nat × Fault))

def Parse.fail (f : Fault) : Parse α := do throw ((← get).line, f)

namespace Source

/-- Without hidden line breaks in front, which are counted. -/
def unhidden : List UInt8 → Nat → List UInt8 × Nat
  | 92 :: 10 :: r, n => unhidden r (n + 1)
  | bs, n => (bs, n)

def unblanked : List UInt8 → Nat → List UInt8 × Nat
  | 92 :: 10 :: r, n => unblanked r (n + 1)
  | b :: r, n => if b = 32 || b = 9 then unblanked r n else (b :: r, n)
  | [], n => ([], n)

def peek? : Parse (Option UInt8) := modifyGet fun s =>
  let (bs, n) := unhidden s.bytes s.line
  (bs.head?, { s with bytes := bs, line := n })

def advance : Parse Unit := modify fun s =>
  match s.bytes with
  | 10 :: r => { s with bytes := r, line := s.line + 1 + s.taken, taken := 0 }
  | _ :: r => { s with bytes := r }
  | [] => s

def takeAll (p : UInt8 → Bool) : Nat → Parse Text
  | 0 => return ""
  | fuel + 1 => do
    match ← peek? with
    | some b =>
      if p b then
        advance
        return ⟨b :: (← takeAll p fuel).bytes⟩
      else return ""
    | none => return ""

def hold (t : Token) : Parse Unit := modify fun s => { s with held := some t }

def upToQuote : Nat → Parse Text
  | 0 => Parse.fail .openQuotes
  | fuel + 1 => do
    match (← get).bytes with
    | [] => Parse.fail .openQuotes
    | b :: _ =>
      advance
      if b = 39 then return ""
      else return ⟨b :: (← upToQuote fuel).bytes⟩

def upToBackQuote (quoted : Bool) : Nat → Parse Text
  | 0 => Parse.fail .openBackQuotes
  | fuel + 1 => do
    match (← get).bytes with
    | [] => Parse.fail .openBackQuotes
    | 92 :: b :: _ =>
      advance
      advance
      let rest ← upToBackQuote quoted fuel
      let plain := b = byte '\\' || b = 96 || b = byte '$' || (quoted && b = byte '"')
      return ⟨if b = 10 then rest.bytes
        else if plain then b :: rest.bytes
        else 92 :: b :: rest.bytes⟩
    | b :: _ =>
      advance
      if b = 96 then return ""
      else return ⟨b :: (← upToBackQuote quoted fuel).bytes⟩

inductive Inside where
  | word
  | braces (quoted : Bool)
  | quotes
  /-- In an expression, inside so many parentheses. -/
  | sum (depth : Nat)
  | document
deriving DecidableEq

namespace Inside

def isQuoted : Inside → Bool
  | word => false
  | braces quoted => quoted
  | _ => true

/-- Why the script must not end here, if it must not. -/
def fault? : Inside → Option Fault
  | word | document => none
  | braces false => some (.missing "\x7d")
  | sum _ => some (.missing "))")
  | _ => some .openQuotes

/-- Whether a backslash takes the meaning of a byte inside quotes. -/
def isEscaped (i : Inside) (b : UInt8) : Bool :=
  b = byte '$' || b = 96 || b = byte '\\' || (b = byte '"' && i ≠ .document)
    || (b = byte '\x7d' && i = .braces true)

end Inside

def endsWord (b : UInt8) : Bool :=
  ([32, 9, 10, byte ';', byte '&', byte '|', byte '<', byte '>', byte '(', byte ')'] :
    List UInt8).contains b

def isSign (b : UInt8) : Bool :=
  ([byte '#', byte '?', byte '$', byte '!', byte '-', byte '*', byte '@'] : List UInt8).contains b

def push (quoted : Bool) (b : UInt8) : List Part → List Part
  | .text q t :: rest =>
    if q = quoted then .text q ⟨t.bytes ++ [b]⟩ :: rest
    else .text quoted ⟨[b]⟩ :: .text q t :: rest
  | parts => .text quoted ⟨[b]⟩ :: parts

def plainText (w : Word) : Text :=
  Text.concat (w.filterMap fun p => match p with
    | .text _ t => some t
    | _ => none)

def documentLines (stripped : Bool) (mark : Text) : List Text → List Text × List Text
  | [] => ([], [])
  | l :: ls =>
    let l := if stripped then l.dropWhile (· = 9) else l
    if l = mark then ([], ls)
    else
      let (body, rest) := documentLines stripped mark ls
      (l :: body, rest)

def takeDocument (stripped : Bool) (mark : Text) : Parse Text := modifyGet fun s =>
  match Text.cutBytes [10] s.bytes with
  | none => ("", s)
  | some (here, after) =>
    let lines := (⟨after⟩ : Text).split "\n"
    let ended := after.isEmpty || lines.getLast? = some ""
    let (body, rest) := documentLines stripped mark (if ended then lines.dropLast else lines)
    let left := Text.join "\n" rest ++ (if ended && !rest.isEmpty then ("\n" : Text) else "")
    (Text.lines body,
      { s with bytes := here ++ 10 :: left.bytes, taken := s.taken + (lines.length - rest.length) })

def sign : Parse Text := do
  match ← peek? with
  | some 62 =>
    advance
    match ← peek? with
    | some 62 => advance; return ">>"
    | some 124 => advance; return ">"
    | some 38 => advance; return ">&"
    | _ => return ">"
  | _ =>
    advance
    match ← peek? with
    | some 60 =>
      advance
      match ← peek? with
      | some 45 => advance; return "<<-"
      | _ => return "<<"
    | some 38 => advance; return "<&"
    | some 62 => advance; return "<>"
    | _ => return "<"

/-- What a reader finds, again and again, until it finds nothing. -/
def many (item? : Parse (Option α)) : Parse (List α) := do
  let rec items : Nat → Parse (List α)
    | 0 => return []
    | fuel + 1 => do
      match ← item? with
      | some a => return a :: (← items fuel)
      | none => return []
  items ((← get).bytes.length + 2)

/-- Which commands belong to a list: those of a line, those before a word that ends the list, or
those of an arm, which may be none. -/
inductive Extent where
  | line
  | block
  | arm
deriving DecidableEq

/-- The names of commands that no function may have. -/
def specialCommands : List Text :=
  ["break", ":", "continue", ".", "eval", "exec", "exit", "export", "readonly", "return", "set",
   "shift", "times", "trap", "unset"]

/-- The readers that are called again by the readers that they call. -/
class Readers where
  parts : Inside → List Part → Bool → Parse (Word × Bool) := fun _ _ _ => Parse.fail .openQuotes
  commands : Extent → List Command → Parse (List Command) := fun _ _ => Parse.fail .openQuotes
  command : Parse Command := Parse.fail .openQuotes

section

variable [Readers]

def block : Parse (List Command) := Readers.commands .block []

def inBraces (quoted : Bool) : Parse Word := return (← Readers.parts (.braces quoted) [] false).1

def unused (quoted : Bool) (name : Text) : Parse Part := do
  let _ ← inBraces quoted
  return .parameter quoted name .unknown

def used (quoted : Bool) (name : Text) : Parse Part := do
  match ← peek? with
  | none => Parse.fail (if quoted then .openQuotes else .missing "\x7d")
  | some b =>
    if b = byte '\x7d' then
      advance
      return .parameter quoted name .value
    else if b = byte '%' || b = byte '#' then
      advance
      let longest := (← peek?) = some b
      if longest then advance
      return .parameter quoted name (.trimmed (b = byte '%') longest (← inBraces false))
    else
      let orEmpty := b = byte ':'
      if orEmpty then advance
      let use? : Option (Word → Use) := match ← peek? with
        | some 45 => some (.absent orEmpty .replace)
        | some 61 => some (.absent orEmpty .assign)
        | some 63 => some (.absent orEmpty .complain)
        | some 43 => some (.present orEmpty)
        | _ => none
      match use? with
      | some use =>
        advance
        return .parameter quoted name (use (← inBraces quoted))
      | none => unused quoted name

def braced (quoted : Bool) : Parse Part := do
  let size := (← get).bytes.length
  match ← peek? with
  | none => Parse.fail (if quoted then .openQuotes else .missing "\x7d")
  | some b =>
    if Byte.isDigit b then used quoted (← takeAll Byte.isDigit size)
    else if isNameByte b then used quoted (← takeAll isNameByte size)
    else if b = byte '#' then
      advance
      match ← peek? with
      | some c =>
        if isNameByte c then
          let name ← takeAll (if Byte.isDigit c then Byte.isDigit else isNameByte) size
          if (← peek?) = some (byte '\x7d') then
            advance
            return .parameter quoted name .length
          else unused quoted name
        else if isSign c && (← get).bytes[1]? = some (byte '\x7d') then
          advance
          advance
          return .parameter quoted ⟨[c]⟩ .length
        else used quoted "#"
      | none => used quoted "#"
    else if isSign b then
      advance
      used quoted ⟨[b]⟩
    else unused quoted ""

def token : Parse Token := do
  match (← get).held with
  | some t =>
    modify fun s => { s with held := none }
    return t
  | none =>
    modify fun s =>
      let (bs, line) := unblanked s.bytes s.line
      let bytes := if bs.head? = some (byte '#') then bs.dropWhile (· ≠ 10) else bs
      { s with bytes, line }
    match ← peek? with
    | none => return .finish
    | some b =>
      if b = 10 then
        advance
        return .newline
      else if b = byte '&' || b = byte '|' || b = byte ';' then
        advance
        if (← peek?) = some b then
          advance
          return .mark ⟨[b, b]⟩
        else return .mark ⟨[b]⟩
      else if b = byte '(' || b = byte ')' then
        advance
        return .mark ⟨[b]⟩
      else if b = byte '<' || b = byte '>' then return .redirect none (← sign)
      else
        let (w, quoted) ← Readers.parts .word [] false
        let next ← peek?
        match bare? w with
        | some t =>
          if !quoted && t.length = 1 && t.all Byte.isDigit
              && (next = some (byte '<') || next = some (byte '>')) then
            return .redirect t.toNat? (← sign)
          else return .word quoted w
        | none => return .word quoted w

/-- Reads on behind the next token, if that is a wanted one. -/
def accept? (wanted : Token → Option (Parse α)) : Parse (Option α) := do
  let t ← token
  match wanted t with
  | some read => return some (← read)
  | none =>
    hold t
    return none

def tokenBeyond : Parse Token := do
  let _ ← many (accept? fun
    | .newline => some (return ())
    | _ => none)
  token

def behind? (marks : List Text) (read : Parse α) : Parse (Option (Text × α)) :=
  accept? fun t => (marks.find? t.isMark).map fun m => do
    hold (← tokenBeyond)
    return (m, ← read)

def behindWord? (k : Text) (read : Parse α) : Parse (Option α) :=
  accept? fun t => if t.isKeyword k then some read else none

def refused (t : Token) (wanted : Option Text := none) : Parse α :=
  Parse.fail (.unexpected t.title wanted)

def expect (k : Text) : Parse Unit := do
  let t ← token
  if !(t.isKeyword k || t.isMark k) then refused t (some ("\"" ++ k ++ "\""))

def closed : Parse Unit := do
  let t ← token
  if !t.isMark ")" then Parse.fail (.unexpected t.plainTitle (some "\")\""))

/-- What follows a dollar sign, before the parts that stand there already. -/
def dollar (quoted : Bool) (acc : List Part) : Parse (List Part) := do
  match ← peek? with
  | none => return push quoted (byte '$') acc
  | some b =>
    if b = byte '(' then
      advance
      if (← peek?) = some (byte '(') then
        advance
        let (w, _) ← Readers.parts (.sum 0) [] false
        return .number quoted w :: acc
      else
        let cs ← block
        expect ")"
        return .output quoted cs :: acc
    else if b = byte '\x7b' then
      advance
      return (← braced quoted) :: acc
    else if Byte.isDigit b || isSign b then
      advance
      return .parameter quoted ⟨[b]⟩ .value :: acc
    else if isNameByte b then
      return .parameter quoted (← takeAll isNameByte (← get).bytes.length) .value :: acc
    else return push quoted (byte '$') acc

def inner (t : Text) : Parse (List Command) := do
  let s ← get
  set ({ bytes := t.bytes, line := s.line } : Source)
  let cs ← block
  match ← token with
  | .finish =>
    set s
    return cs
  | t => refused t

def parts (i : Inside) (acc : List Part) (quotes : Bool) : Parse (Word × Bool) := do
  let quoted := i.isQuoted
  let more (acc : List Part) : Parse (Word × Bool) := Readers.parts i acc quotes
  match ← peek? with
  | none =>
    match i.fault? with
    | some f => Parse.fail f
    | none => return (acc.reverse, quotes)
  | some b =>
    let ends : Bool := match i with
      | .word => endsWord b
      | .braces _ => b = byte '\x7d'
      | .quotes => b = byte '"'
      | _ => false
    if ends then
      if i ≠ .word then advance
      return (acc.reverse, quotes)
    else
      advance
      if b = byte '\\' then
        match (← get).bytes with
        | [] => more (push quoted b acc)
        | c :: _ =>
          advance
          if !quoted then Readers.parts i (push true c acc) true
          else if i.isEscaped c then more (push true c acc)
          else more (push true c (push true b acc))
      else if b = 39 && !quoted then
        let t ← upToQuote (← get).bytes.length.succ
        Readers.parts i (.text true t :: acc) true
      else if b = byte '"' && (i = .word || i = .braces false || i = .braces true) then
        let (w, _) ← Readers.parts .quotes [] false
        Readers.parts i ((if w.isEmpty then [.text true ""] else w.reverse) ++ acc) true
      else if b = byte '$' then more (← dollar quoted acc)
      else if b = 96 then
        let t ← upToBackQuote quoted (← get).bytes.length.succ
        more (.output quoted (← inner t) :: acc)
      else match i with
        | .sum depth =>
          if b = byte '(' then Readers.parts (.sum (depth + 1)) (push true b acc) quotes
          else if b ≠ byte ')' then more (push true b acc)
          else if depth ≠ 0 then Readers.parts (.sum (depth - 1)) (push true b acc) quotes
          else if (← peek?) = some (byte ')') then
            advance
            return (acc.reverse, quotes)
          else more (push true b acc)
        | _ => more (push quoted b acc)

def redirect (stream : Option Nat) (sign : Text) : Parse Redirect := do
  match ← token with
  | .word quoted w =>
    let n := stream.getD (if sign.startsWith "<" then 0 else 1)
    if sign = "<" then return .file n .read w
    else if sign = ">" then return .file n .write w
    else if sign = ">>" then return .file n .append w
    else if sign = "<>" then return .file n .both w
    else if sign = ">&" || sign = "<&" then return .copy n w
    else
      let t ← takeDocument (sign = "<<-") (plainText w)
      if quoted then return .here n [.text true t]
      else
        let s ← get
        set ({ bytes := t.bytes, line := s.line } : Source)
        let (content, _) ← Readers.parts .document [] false
        set s
        return .here n content
  | t => refused t

def redirects : Parse (List Redirect) := many (accept? fun
  | .redirect stream sign => some (redirect stream sign)
  | _ => none)

def wordList : Parse (List Word) := many do
  match ← token with
  | .word _ w => return some w
  | .newline => return none
  | t => if t.isMark ";" then return none else refused t

def patterns (t : Token) : Parse (List Word) := do
  let word : Token → Word
    | .word _ w => w
    | _ => []
  let rest ← many (accept? fun t => if t.isMark "|" then some (return word (← token)) else none)
  closed
  return word t :: rest

def arms : Parse (List (List Word × List Command)) := many do
  let t ← tokenBeyond
  if t.isKeyword "esac" then return none
  else
    let ws ← patterns (← if t.isMark "(" then token else pure t)
    let cs ← Readers.commands .arm []
    let t ← tokenBeyond
    if t.isKeyword "esac" then hold t
    else if !t.isMark ";;" then refused t (some "\";;\"")
    return some (ws, cs)

def choice : Parse Command := do
  let branch : Parse (List Command × List Command) := do
    let test ← block
    expect "then"
    return (test, ← block)
  let (test, yes) ← branch
  let more ← many (behindWord? "elif" branch)
  let no ← behindWord? "else" block
  expect "fi"
  return .choice test yes
    (more.foldr (fun (test, yes) no => [.choice test yes no []]) (no.getD [])) (← redirects)

/-- The commands that a loop repeats. -/
def body : Parse (List Command) := do
  expect "do"
  let cs ← block
  expect "done"
  return cs

/-- A command of settings, words and redirections, or the name of a function before its body. -/
def simple (line : Nat) : Parse Command := do
  let items ← many (accept? fun
    | .word _ w => some (return (Except.ok w : Except Redirect Word))
    | .redirect stream sign => some (return .error (← redirect stream sign))
    | _ => none)
  let isSetting (w : Word) : Bool := (setting? w).isSome
  let all := items.filterMap Except.toOption
  let t ← token
  match t.isMark "(", items, all.dropWhile isSetting with
  | true, [_], [w] =>
    closed
    match (bare? w).filter fun n => isName n && !specialCommands.contains n with
    | none => Parse.fail .functionName
    | some name =>
      hold (← tokenBeyond)
      let line := (← get).line
      return .define line name (← Readers.command)
  | _, _, words =>
    hold t
    return .simple line ((all.takeWhile isSetting).filterMap setting?) words (items.filterMap fun
      | .error r => some r
      | .ok _ => none)

def command : Parse Command := do
  let t ← token
  let line := (← get).line
  if t.isMark "(" then
    let cs ← block
    expect ")"
    return .subshell cs (← redirects)
  else match t.keyword? with
    | some k =>
      if k = "\x7b" then
        let cs ← block
        expect "\x7d"
        return .group cs (← redirects)
      else if k = "if" then choice
      else if k = "while" || k = "until" then
        let test ← block
        return .loop (k = "while") test (← body) (← redirects)
      else if k = "for" then
        match ← token with
        | .word false w =>
          match (bare? w).filter isName with
          | none => Parse.fail .loopName
          | some name =>
            let t ← tokenBeyond
            let words ← if t.isKeyword "in" then pure (some (← wordList))
              else do
                if !t.isMark ";" then hold t
                pure none
            hold (← tokenBeyond)
            return .each line name words (← body) (← redirects)
        | _ => Parse.fail .loopName
      else if k = "case" then
        match ← token with
        | .word _ w =>
          hold (← tokenBeyond)
          expect "in"
          return .select line w (← arms) (← redirects)
        | t => refused t (some "word")
      else refused t
    | none =>
      match t with
      | .word _ _ | .redirect _ _ =>
        hold t
        simple line
      | t => refused t

def pipeline : Parse Command := do
  let t ← token
  let negated := t.isKeyword "!"
  if !negated then hold t
  let first ← command
  let rest ← many (behind? ["|"] command)
  let c := if rest.isEmpty then first else .pipe (first :: rest.map Prod.snd)
  return if negated then .negate c else c

def connected : Parse Command := do
  let first ← pipeline
  let rest ← many (behind? ["&&", "||"] pipeline)
  return rest.foldl (fun a (m, c) => if m = "&&" then .both a c else .either a c) first

def commands (extent : Extent) (acc : List Command) : Parse (List Command) := do
  let t ← if extent = .line then token else tokenBeyond
  match t with
  | .newline => return acc.reverse
  | .finish =>
    hold .finish
    return acc.reverse
  | t =>
    hold t
    if extent ≠ .line && (!acc.isEmpty || extent = .arm) && t.endsList then return acc.reverse
    else
      let c ← connected
      let t ← token
      let acc := (if t.isMark "&" then .background c else c) :: acc
      if t.isMark "&" || t.isMark ";" then Readers.commands extent acc
      else
        hold t
        match t with
        | .finish => return acc.reverse
        | .newline => Readers.commands extent acc
        | t =>
          if extent = .line then refused t else return acc.reverse

end

@[reducible]
def readers : Nat → Readers
  | 0 => {}
  | fuel + 1 =>
    { parts := fun i acc quotes => @parts (readers fuel) i acc quotes
      commands := fun extent acc => @commands (readers fuel) extent acc
      command := fun s => @command (readers fuel) s }

def line? (s : Source) : Except (Nat × Fault) (Option (List Command × Source)) := do
  let _ := readers (16 * (s.bytes.length + 16))
  let (t, s) ← token.run s
  match t with
  | .finish => return none
  | .newline => return some ([], s)
  | t => return some (← (commands .line []).run { s with held := some t })

end Source

end Dataflow.Shell
