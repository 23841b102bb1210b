import Dataflow.Text.Basic

/-!
# Points in time

A `Moment` is a date with a time of day, to the nanosecond.  A `Stamp` is a moment as the clock of
some zone shows it; `Stamp.text` names the zone, and `Stamp.document?` is the form for documents.
-/

namespace Dataflow

open Text

structure Moment where
  year : Int
  month : Nat
  day : Nat
  hour : Nat := 0
  minute : Nat := 0
  second : Nat := 0
  nanos : Nat := 0
deriving DecidableEq

namespace Moment

def isLeap (year : Int) : Bool := year % 4 = 0 && (year % 100 ≠ 0 || year % 400 = 0)

def daysIn (year : Int) (month : Nat) : Nat :=
  if month = 2 then (if isLeap year then 29 else 28)
  else if month = 4 || month = 6 || month = 9 || month = 11 then 30
  else 31

/-- The number of a day counted from 1970-01-01. -/
def dayNumber (year : Int) (month day : Nat) : Int :=
  let y := if month ≤ 2 then year - 1 else year
  let era := y / 400
  let yoe := y - era * 400
  let shifted : Int := if month ≤ 2 then month + 9 else month - 3
  let doy := (153 * shifted + 2) / 5 + day - 1
  era * 146097 + (yoe * 365 + yoe / 4 - yoe / 100 + doy) - 719468

/-- The day with a number counted from 1970-01-01. -/
def ofDayNumber (n : Int) : Int × Nat × Nat :=
  let z := n + 719468
  let era := z / 146097
  let doe := z - era * 146097
  let yoe := (doe - doe / 1460 + doe / 36524 - doe / 146096) / 365
  let doy := doe - (365 * yoe + yoe / 4 - yoe / 100)
  let mp := (5 * doy + 2) / 153
  let day := doy - (153 * mp + 2) / 5 + 1
  let month := if mp < 10 then mp + 3 else mp - 9
  let year := yoe + era * 400 + (if month ≤ 2 then 1 else 0)
  (year, month.toNat, day.toNat)

def minusMinutes (m : Moment) (minutes : Int) : Moment :=
  let total := dayNumber m.year m.month m.day * 1440 + m.hour * 60 + m.minute - minutes
  let (year, month, day) := ofDayNumber (total / 1440)
  let rest := (total % 1440).toNat
  { m with year, month, day, hour := rest / 60, minute := rest % 60 }

def dateText (m : Moment) : Text :=
  padZeros 4 (ofInt m.year) ++ "-" ++ padZeros 2 (ofNat m.month) ++ "-"
    ++ padZeros 2 (ofNat m.day)

def timeText (m : Moment) : Text :=
  padZeros 2 (ofNat m.hour) ++ ":" ++ padZeros 2 (ofNat m.minute) ++ ":"
    ++ padZeros 2 (ofNat m.second)

def fractionText (m : Moment) : Text :=
  if m.nanos = 0 then ""
  else "." ++ (padZeros 9 (ofNat m.nanos)).dropEndWhile (· = byte '0')

/-- The seconds since 1970, if the clock shows universal time. -/
def seconds (m : Moment) : Int :=
  dayNumber m.year m.month m.day * 86400 + m.hour * 3600 + m.minute * 60 + m.second

def digits? (n : Nat) (bs : List UInt8) : Option (Nat × List UInt8) :=
  let d := bs.take n
  if d.length = n && d.all Byte.isDigit then ((⟨d⟩ : Text).toNat?).map (·, bs.drop n) else none

def after? (c : Char) : List UInt8 → Option (List UInt8)
  | b :: bs => if b = byte c then some bs else none
  | [] => none

def datePart? (bs : List UInt8) : Option (Moment × List UInt8) := do
  let (year, bs) ← digits? 4 bs
  let bs ← after? '-' bs
  let (month, bs) ← digits? 2 bs
  let bs ← after? '-' bs
  let (day, bs) ← digits? 2 bs
  if 1 ≤ month && month ≤ 12 && 1 ≤ day && day ≤ daysIn year month then
    return ({ year, month, day }, bs)
  else none

end Moment

/-- What a clock shows: universal time, the time of this place, which is the same, or a time so many
minutes ahead. -/
inductive Zone where
  | universal
  | here
  | ahead (minutes : Int)
deriving DecidableEq

namespace Zone

def minutes : Zone → Int
  | universal | here => 0
  | ahead n => n

/-- A number of minutes with its sign, as hours and minutes. -/
def clock (sep : Text) (n : Int) : Text :=
  let two (k : Nat) : Text := padZeros 2 (ofNat k)
  (if n < 0 then "-" else "+") ++ two (n.natAbs / 60) ++ sep ++ two (n.natAbs % 60)

def text : Zone → Text
  | universal | here => "+0000 UTC"
  | ahead n => clock "" n ++ " " ++ clock "" n

end Zone

structure Stamp where
  moment : Moment
  zone : Zone
deriving DecidableEq

namespace Stamp

def text (s : Stamp) : Text :=
  s.moment.dateText ++ " " ++ s.moment.timeText ++ s.moment.fractionText ++ " " ++ s.zone.text

/-- The form for documents; a zone a day or more away has none. -/
def document? (s : Stamp) : Option Text :=
  let n := s.zone.minutes
  if 1440 ≤ n.natAbs then none
  else some (s.moment.dateText ++ "T" ++ s.moment.timeText ++ s.moment.fractionText
    ++ (if n = 0 then ("Z" : Text) else Zone.clock ":" n))

/-- Whether two stamps are one and the same.  Zones that are only known by their distance from
universal time are never the same. -/
def same (a b : Stamp) : Bool :=
  a.moment = b.moment && match a.zone, b.zone with
    | .universal, .universal => true
    | .here, .here => true
    | _, _ => false

/-- An order: by decimals, then by seconds, then by zone. -/
def le (a b : Stamp) : Bool :=
  let second (s : Stamp) : Int := s.moment.seconds - s.zone.minutes * 60
  if a.moment.nanos ≠ b.moment.nanos then a.moment.nanos < b.moment.nanos
  else if second a ≠ second b then second a < second b
  else a.zone = .universal || b.zone ≠ .universal

end Stamp

end Dataflow
