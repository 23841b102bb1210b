import Dataflow.Text.Basic

/-!
# The characters of a document

A document is UTF-8, or UTF-16 if it starts with the byte order mark of that.  It is read in
portions of 512 bytes; what a portion leaves of a character goes to the next.  A portion with a
malformed or a forbidden character cannot be read at all, but that does no harm to a reader that
stops before it.  After the last character come zeros without end.
-/

namespace Dataflow.Yaml

def isAllowed (n : Nat) : Bool :=
  n = 9 || n = 10 || n = 13 || (0x20 ≤ n && n ≤ 0x7E) || n = 0x85 || (0xA0 ≤ n && n ≤ 0xD7FF)
    || (0xE000 ≤ n && n ≤ 0xFFFD) || (0x10000 ≤ n && n ≤ 0x10FFFF)

inductive Front where
  | char (c : Char) (size : Nat)
  /-- A character that goes on in the next portion. -/
  | cut
  | fault

namespace Front

def ofNumber (n size : Nat) : Front := if isAllowed n then char (Char.ofNat n) size else fault

def lead? (b : UInt8) : Option (Nat × Nat) :=
  if b < 0x80 then some (1, b.toNat)
  else if b < 0xC0 then none
  else if b < 0xE0 then some (2, b.toNat % 32)
  else if b < 0xF0 then some (3, b.toNat % 16)
  else if b < 0xF8 then some (4, b.toNat % 8)
  else none

def least : Nat → Nat
  | 2 => 0x80
  | 3 => 0x800
  | 4 => 0x10000
  | _ => 0

def utf8 : List UInt8 → Front
  | [] => cut
  | b :: r =>
    match lead? b with
    | none => fault
    | some (size, high) =>
      let tail := r.take (size - 1)
      if tail.length < size - 1 then cut
      else if tail.any fun t => t.toNat / 64 ≠ 2 then fault
      else
        let n := tail.foldl (fun n t => n * 64 + t.toNat % 64) high
        if n < least size then fault else ofNumber n size

def utf16 (lowFirst : Bool) (bs : List UInt8) : Front :=
  let unit (a b : UInt8) : Nat := if lowFirst then a.toNat + b.toNat * 256 else a.toNat * 256 + b.toNat
  match bs with
  | a :: b :: r =>
    let n := unit a b
    if n / 1024 = 0x37 then fault
    else if n / 1024 = 0x36 then
      match r with
      | c :: d :: _ =>
        let m := unit c d
        if m / 1024 = 0x37 then ofNumber (0x10000 + n % 1024 * 1024 + m % 1024) 4 else fault
      | _ => cut
    else ofNumber n 2
  | _ => cut

end Front

structure Source where
  /-- The characters of all portions before the first that cannot be read. -/
  chars : Array Char := #[]
  bounds : List Nat := []
  broken : Bool := false

namespace Source

/-- Adds the characters of a portion, after passing the given number of bytes.  The second part is
what is left of a character at the end, or nothing if the portion cannot be read. -/
def portion (front : List UInt8 → Front) :
    Nat → List UInt8 → Array Char → Array Char × Option (List UInt8)
  | _, [], cs => (cs, some [])
  | k + 1, _ :: r, cs => portion front k r cs
  | 0, b :: r, cs =>
    match front (b :: r) with
    | .char c size => portion front (size - 1) r (cs.push c)
    | .cut => (cs, some (b :: r))
    | .fault => (cs, none)

def portionSize : Nat := 512

/-- Reads portion after portion, at most so many: `left` was left by the last one, and the next has
room for so many further bytes. -/
def portions (front : List UInt8 → Front) : Nat → (left rest : List UInt8) → (room : Nat) →
    (cs : Array Char) → (bounds : List Nat) → Source
  | 0, _, _, _, cs, bounds => ⟨cs, bounds.reverse, true⟩
  | count + 1, left, rest, room, cs, bounds =>
    if rest.isEmpty then ⟨cs, bounds.reverse, !left.isEmpty⟩
    else
      match portion front 0 (left ++ rest.take room) cs with
      | (more, some left) =>
        portions front count left (rest.drop room) (portionSize - left.length) more
          (more.size :: bounds)
      | (_, none) => ⟨cs, bounds.reverse, true⟩

def ofBytes (bs : List UInt8) : Source :=
  let read (front : List UInt8 → Front) (mark : Nat) : Source :=
    portions front (bs.length + 1) [] (bs.drop mark) (portionSize - mark) #[] []
  match bs with
  | 0xFF :: 0xFE :: _ => read (Front.utf16 true) 2
  | 0xFE :: 0xFF :: _ => read (Front.utf16 false) 2
  | 0xEF :: 0xBB :: 0xBF :: _ => read Front.utf8 3
  | _ => read Front.utf8 0

def charAt (s : Source) (i : Nat) : Char := s.chars.getD i '\x00'

/-- How many characters have been read when `wanted` are there, of which `loaded` have been read
before.  There are none if that needs a portion that cannot be read. -/
def load? (s : Source) (loaded wanted : Nat) : Option Nat :=
  match s.bounds.find? (wanted ≤ ·) with
  | some n => some n
  | none => if s.broken then none else some (max loaded s.chars.size + 1)

end Source

end Dataflow.Yaml
