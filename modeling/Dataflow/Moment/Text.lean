import Dataflow.Moment
import Dataflow.Text.Quoted

/-!
# Dates and times in text

The dates, times of day and timestamps that a column of text may hold, and timestamps with a zone.
Each has one written form; reading accepts a few more.
-/

namespace Dataflow

namespace Moment

def text (m : Moment) : Text :=
  m.dateText ++ " " ++ m.timeText ++ m.fractionText ++ "Z"

def hour? (bs : List UInt8) : Option (Nat × List UInt8) :=
  match digits? 2 bs with
  | some r => some r
  | none => digits? 1 bs

/-- Why a text is no date, in the words of the readers of tables. -/
def dateFault (t : Text) : Text :=
  let start : Text := "parsing time " ++ t.quoted
  let head : Text := start ++ " as \"2006-01-02\": cannot parse "
  let cannot (rest : List UInt8) (element : Text) : Text :=
    head ++ (⟨rest⟩ : Text).quoted ++ " as " ++ element.quoted
  match digits? 4 t.bytes with
  | none => cannot t.bytes "2006"
  | some (year, r1) => match after? '-' r1 with
    | none => cannot r1 "-"
    | some r1 => match digits? 2 r1 with
      | none => cannot r1 "01"
      | some (month, r2) =>
        if month = 0 || 12 < month then start ++ ": month out of range"
        else match after? '-' r2 with
          | none => cannot r2 "-"
          | some r2 => match digits? 2 r2 with
            | none => cannot r2 "02"
            | some (day, r3) =>
              if !r3.isEmpty then start ++ ": extra text: " ++ (⟨r3⟩ : Text).quoted
              else if day = 0 || daysIn year month < day then start ++ ": day out of range"
              else ""

def date? (t : Text) : Option Moment := do
  let (m, bs) ← datePart? t.bytes
  if bs.isEmpty then return m else none

/-- The decimals of a second after a point, as nanoseconds; those beyond the ninth are dropped. -/
def fraction (bs : List UInt8) : Nat × List UInt8 :=
  match bs with
  | b :: rest =>
    let ds := rest.takeWhile Byte.isDigit
    if (b = byte '.' || b = byte ',') && !ds.isEmpty then
      let n := ((⟨ds.take 9⟩ : Text).toNat?).getD 0
      (n * Nat.pow 10 (9 - ds.length), rest.drop ds.length)
    else (0, bs)
  | [] => (0, [])

/-- A time of day with as many of its parts as told, at the front of a text. -/
def timePart? (parts : Nat) (m : Moment) (bs : List UInt8) : Option (Moment × List UInt8) := do
  let (hour, bs) ← hour? bs
  if 24 ≤ hour then none
  if parts = 1 then return ({ m with hour }, bs)
  let bs ← after? ':' bs
  let (minute, bs) ← digits? 2 bs
  if 60 ≤ minute then none
  if parts = 2 then return ({ m with hour, minute }, bs)
  let bs ← after? ':' bs
  let (second, bs) ← digits? 2 bs
  if 60 ≤ second then none
  let (nanos, bs) := fraction bs
  return ({ m with hour, minute, second, nanos }, bs)

def time? (t : Text) : Option Moment := do
  if 8 < t.length then none
  let (m, bs) ← timePart? (if t.length = 5 then 2 else 3) { year := 0, month := 1, day := 1 } t.bytes
  if bs.isEmpty then return { m with nanos := 0 } else none

def zoneLength (bs : List UInt8) : Nat :=
  let n := bs.length
  let sign (k : Nat) : Bool := (bs[n - k]?).any fun b => b = byte '+' || b = byte '-'
  if n ≤ 10 then 0
  else if bs.getLast? = some (byte 'Z') then 1
  else if sign 3 then 3
  else if sign 5 then 5
  else if sign 6 then 6
  else 0

def zone? (bs : List UInt8) : Option Int :=
  match bs with
  | [] => some 0
  | [_] => some 0
  | sign :: rest => do
    let (hours, rest) ← digits? 2 rest
    let rest := (after? ':' rest).getD rest
    let (minutes, rest) ← if rest.isEmpty then some (0, []) else digits? 2 rest
    if !rest.isEmpty || 24 < hours || 60 < minutes then none
    let total : Int := hours * 60 + minutes
    return if sign = byte '-' then -total else total

/-- The rest after what stands between a date and a time of day: one byte, or blanks. -/
def afterSeparator? : List UInt8 → Option (List UInt8)
  | [] => none
  | b :: r => if b = 32 then some (r.dropWhile (· = 32)) else if b < 0x80 then some r else none

/-- The moment that is left of a moment as a number of nanoseconds since 1970 in 64 bits. -/
def inNanos (m : Moment) : Moment :=
  let n := (Int64.ofInt (m.seconds * 1000000000 + m.nanos)).toInt
  let s := n / 1000000000
  let (year, month, day) := ofDayNumber (s / 86400)
  let rest := (s % 86400).toNat
  { year, month, day, hour := rest / 3600, minute := rest / 60 % 60, second := rest % 60,
    nanos := (n % 1000000000).toNat }

/-- A timestamp: a date, possibly a time of day, and possibly a zone.  Decimals of seconds are
accepted or not; with them the moment is kept in nanoseconds. -/
def timestamp? (decimals : Bool) (t : Text) : Option Moment := do
  let bs := t.bytes
  if bs.length < 10 then none
  let size := bs.length - zoneLength bs
  let zone := bs.drop size
  if !decimals && 19 < size then none
  let (m, rest) ← datePart? bs
  let parts := if size = 13 then 1 else if size = 16 then 2 else if 19 ≤ size then 3 else 0
  let (m, rest) ← if parts = 0 then some (m, rest) else (afterSeparator? rest).bind (timePart? parts m)
  if rest ≠ zone then none
  let m := m.minusMinutes (← zone? zone)
  return if decimals then m.inNanos else m

/-- A timestamp with a zone, such as `2006-01-02T15:04:05Z` or `2006-01-02T15:04:05-07:00`, as the
moment it names.  Decimals of a second are accepted. -/
def zoned? (t : Text) : Option Moment := do
  let (m, bs) ← datePart? t.bytes
  let bs ← after? 'T' bs
  let (m, bs) ← timePart? 3 m bs
  match bs with
  | [z] => if z = byte 'Z' then return m else none
  | sign :: _ =>
    if (sign = byte '+' || sign = byte '-') && bs.length = 6 && bs[3]? = some (byte ':') then
      return m.minusMinutes (← zone? bs)
    else none
  | [] => none

def zonedText (m : Moment) : Text := m.dateText ++ "T" ++ m.timeText ++ "Z"

end Moment

end Dataflow
