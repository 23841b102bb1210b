import Dataflow.Message.Place
import Dataflow.Decimal.Reader
import Dataflow.Shell.Sum

/-!
# What commands write

`unescape` resolves what stands after backslashes, and `fill` fills the places of a format with
words, again and again until no word is left.
-/

namespace Dataflow.Shell

def escaped? (b : UInt8) : Option UInt8 :=
  let letters : List (UInt8 × UInt8) :=
    [(byte 'n', 10), (byte 't', 9), (byte 'r', 13), (byte 'a', 7), (byte 'b', 8), (byte 'f', 12),
     (byte 'v', 11), (byte '\\', byte '\\')]
  (letters.find? (·.1 = b)).map Prod.snd

def isOctal (b : UInt8) : Bool := byte '0' ≤ b && b ≤ byte '7'

/-- What stands after a backslash: a byte by a letter or by up to three octal digits.  Any other
byte leaves the backslash. -/
def afterBackslash (bs : List UInt8) : UInt8 × List UInt8 :=
  let digits := (bs.take 3).takeWhile isOctal
  if digits.isEmpty then
    match bs with
    | b :: rest =>
      match escaped? b with
      | some c => (c, rest)
      | none => (byte '\\', bs)
    | [] => (byte '\\', [])
  else ((digits.foldl (fun (n : Nat) (b : UInt8) => n * 8 + (b.toNat - 48)) 0).toUInt8, bs.drop digits.length)

def unescape : Nat → List UInt8 → List UInt8 × Bool
  | 0, bs => (bs, false)
  | _, [] => ([], false)
  | fuel + 1, a :: rest =>
    if a ≠ byte '\\' then
      let (out, stop) := unescape fuel rest
      (a :: out, stop)
    else
      match rest with
      | 99 :: _ => ([], true)
      | _ =>
        let skip := rest.head? = some (byte '0') && (rest[1]?).any isOctal
        let (c, rest) := afterBackslash (if skip then rest.drop 1 else rest)
        let (out, stop) := unescape fuel rest
        (c :: out, stop)

def echoed (words : List Text) : Text :=
  let (open', words) := match words with
    | flag :: rest => if flag = "-n" then (true, rest) else (false, words)
    | [] => (false, [])
  let whole := Text.join " " words
  let (out, stop) := unescape whole.length whole.bytes
  ⟨out⟩ ++ (if open' || stop then ("" : Text) else "\n")

structure Written where
  text : Text := ""
  words : List Text
  complaints : List Text := []
  /-- Nothing is written after this. -/
  stopped : Bool := false
  fault : Option Text := none

namespace Written

def add (w : Written) (t : Text) : Written := { w with text := w.text ++ t }

def next (w : Written) : Option Text × Written := (w.words.head?, { w with words := w.words.drop 1 })

/-- The number that a word is read as, with what is wrong with it. -/
def number (t : Text) : Int × Option Text :=
  match t.bytes with
  | q :: b :: _ => if q = 34 || q = 39 then (b.toNat, none) else read t
  | _ => read t
where
  outOfRange : Text := ": Numerical result out of range"
  read (t : Text) : Int × Option Text :=
    let bs := t.bytes.dropWhile isSpace
    let negative := bs.head? = some 45
    let signed := negative || bs.head? = some 43
    let start := if signed then bs.drop 1 else bs
    let (n, rest) := Sum.digits start
    let n : Int := if negative then -n else n
    if rest.length = start.length then
      (0, if t.isEmpty then none else some (t ++ ": expected numeric value"))
    else if !rest.isEmpty then (n, some (t ++ ": not completely converted"))
    else if n < Int64.minValue.toInt then (Int64.minValue.toInt, some (t ++ outOfRange))
    else if Int64.maxValue.toInt < n then (Int64.maxValue.toInt, some (t ++ outOfRange))
    else (n, none)

def nextNumber (w : Written) : Int × Written :=
  match w.next with
  | (some t, w) =>
    let (n, complaint) := number t
    (n, { w with complaints := w.complaints ++ complaint.toList })
  | (none, w) => (0, w)

def extent (w : Written) (bs : List UInt8) : Option Int × Written × List UInt8 :=
  match bs with
  | 42 :: rest =>
    let (n, w) := w.nextNumber
    (some n, w, rest)
  | _ =>
    let ds := bs.takeWhile Byte.isDigit
    ((⟨ds⟩ : Text).toNat?.map Int.ofNat, w, bs.drop ds.length)

def place (w : Written) (p : Place) (verb : UInt8) : Written :=
  let c := Char.ofNat verb.toNat
  if c = 's' then
    let (t, w) := w.next
    w.add (p.blankPadded (p.cut (t.getD "")))
  else if c = 'b' then
    let (t, w) := w.next
    let (out, stop) := unescape (t.getD "").length (t.getD "").bytes
    { w.add (p.blankPadded (p.cut ⟨out⟩)) with stopped := stop }
  else if c = 'c' then
    let (t, w) := w.next
    w.add (p.blankPadded ((t.getD "").take 1))
  else if c = 'd' || c = 'i' then
    let (n, w) := w.nextNumber
    let p := { p with verb := 'd', zero := p.zero && p.precision.isNone }
    w.add ((p.integer? true n).getD "")
  else if c = 'o' || c = 'u' || c = 'x' || c = 'X' then
    let (n, w) := w.nextNumber
    let n : Int := if n < 0 then n + 18446744073709551616 else n
    let p := { p with verb := if c = 'u' then 'd' else c, plus := false, space := false }
    w.add ((p.integer? false n).getD "")
  else if ['e', 'E', 'f', 'F', 'g', 'G'].contains c then
    let (t, w) := w.next
    let t := t.getD ""
    let (x, complaint) : Float × Option Text := match readFloat t with
      | .ok x => (x, none)
      | .error _ => (0, if t.isEmpty then none else some (t ++ ": expected numeric value"))
    let p := { p with verb := if c = 'F' then 'f' else c, precision := some (p.precision.getD 6) }
    { w with complaints := w.complaints ++ complaint.toList }.add ((p.float? x).getD "")
  else { w with stopped := true, fault := some ("%" ++ ⟨[verb]⟩ ++ ": invalid directive") }

def once : Nat → Written → List UInt8 → Written
  | 0, w, _ => w
  | _, w, [] => w
  | fuel + 1, w, a :: rest =>
    if w.stopped then w
    else if a = byte '\\' then
      let (c, rest) := afterBackslash rest
      once fuel (w.add ⟨[c]⟩) rest
    else if a ≠ byte '%' then once fuel (w.add ⟨[a]⟩) rest
    else if rest.head? = some (byte '%') then once fuel (w.add "%") (rest.drop 1)
    else
      let (p, rest) := Place.ofMarks rest
      let (width, w, rest) := w.extent rest
      let p := { p with width := width.map Int.natAbs, minus := p.minus || width.any (· < 0) }
      let (precision, w, rest) : Option Int × Written × List UInt8 := match rest with
        | 46 :: rest =>
          let (n, w, rest) := w.extent rest
          (some (n.getD 0), w, rest)
        | _ => (none, w, rest)
      let p := { p with precision := (precision.filter (0 ≤ ·)).map Int.natAbs }
      match rest with
      | [] => { w with stopped := true, fault := some "missing format character" }
      | verb :: rest => once fuel (w.place p verb) rest

def repeated (format : List UInt8) : Nat → Written → Written
  | 0, w => w
  | fuel + 1, w =>
    let after := once (format.length + 1) w format
    if after.stopped || after.words.isEmpty || after.words.length = w.words.length then after
    else repeated format fuel after

end Written

def fill (format : Text) (words : List Text) : Written :=
  Written.repeated format.bytes (words.length + 1) { words }

end Dataflow.Shell
