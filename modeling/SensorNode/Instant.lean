/-
Instants of time and their RFC 3339 texts. Dates are those of the proleptic Gregorian calendar, counted as days from
1970-01-01 (`daysOf`, `dateOf`).
-/
import SensorNode.Text.Blank

namespace SensorNode

/-- Seconds since the start of 1970 in UTC, rounded down, and the nanoseconds above them. A leap second is the second
before it with a billion nanoseconds more. -/
structure Instant where
  seconds : Int
  nanos : Nat
  deriving DecidableEq, Repr, Inhabited

namespace Instant

/-! ### The calendar -/

/-- days from 1970-01-01 to a date; years start in March here, so that a leap day is the last day of its year -/
def daysOf (year : Int) (month day : Nat) : Int :=
  let y := if month ≤ 2 then year - 1 else year
  let era := Int.fdiv y 400
  let yearOfEra := y - era * 400
  let dayOfYear : Int := (153 * ((month + 9) % 12) + 2) / 5 + (day : Int) - 1
  let dayOfEra := yearOfEra * 365 + Int.fdiv yearOfEra 4 - Int.fdiv yearOfEra 100 + dayOfYear
  era * 146097 + dayOfEra - 719468

/-- the date that is `days` after 1970-01-01 -/
def dateOf (days : Int) : Int × Nat × Nat :=
  let z := days + 719468
  let era := Int.fdiv z 146097
  let dayOfEra := (z - era * 146097).toNat
  let yearOfEra := (dayOfEra - dayOfEra / 1460 + dayOfEra / 36524 - dayOfEra / 146096) / 365
  let dayOfYear := dayOfEra - (365 * yearOfEra + yearOfEra / 4 - yearOfEra / 100)
  let march := (5 * dayOfYear + 2) / 153
  let day := dayOfYear - (153 * march + 2) / 5 + 1
  let month := if march < 10 then march + 3 else march - 9
  let year := (yearOfEra : Int) + era * 400
  (if month ≤ 2 then year + 1 else year, month, day)

def isLeap (year : Int) : Bool := year % 4 = 0 ∧ (year % 100 ≠ 0 ∨ year % 400 = 0)

def daysInMonth (year : Int) (month : Nat) : Nat :=
  if month = 2 then (if isLeap year then 29 else 28)
  else if month = 4 ∨ month = 6 ∨ month = 9 ∨ month = 11 then 30
  else 31

/-- the years with instants -/
def inRange (year : Int) : Bool := -262143 ≤ year ∧ year ≤ 262142

/-! ### Writing -/

/-- `n` in at least `width` digits -/
def padded (width n : Nat) : List Char :=
  let ds := Nat.toDigits 10 n
  List.replicate (width - ds.length) '0' ++ ds

/-- four digits, or a sign and at least four where the year has more or is negative -/
def yearText (year : Int) : List Char :=
  if 0 ≤ year ∧ year ≤ 9999 then padded 4 year.toNat
  else (if year < 0 then '-' else '+') :: padded 4 year.natAbs

/-- no fraction, or the fewest of 3, 6 and 9 digits that hold it -/
def fractionText (nanos : Nat) : List Char :=
  if nanos = 0 then []
  else if nanos % 1000000 = 0 then '.' :: padded 3 (nanos / 1000000)
  else if nanos % 1000 = 0 then '.' :: padded 6 (nanos / 1000)
  else '.' :: padded 9 nanos

/-- the text of an instant in UTC -/
def text (t : Instant) : String :=
  let days := Int.fdiv t.seconds 86400
  let rest := (t.seconds - days * 86400).toNat
  let (year, month, day) := dateOf days
  let leap := 1000000000 ≤ t.nanos
  let second := rest % 60 + if leap then 1 else 0
  let nanos := if leap then t.nanos - 1000000000 else t.nanos
  String.ofList <|
    yearText year ++ ['-'] ++ padded 2 month ++ ['-'] ++ padded 2 day ++ ['T'] ++
    padded 2 (rest / 3600) ++ [':'] ++ padded 2 (rest / 60 % 60) ++ [':'] ++ padded 2 second ++
    fractionText nanos ++ ['Z']

/-! ### Reading -/

def isDigit (c : Char) : Bool := '0' ≤ c ∧ c ≤ '9'

def numberOf (ds : List Char) : Nat := ds.foldl (fun n c => n * 10 + (c.toNat - '0'.toNat)) 0

/-- at most `most` digits, at least one, behind blanks -/
def number? (most : Nat) (cs : List Char) : Option (Nat × List Char) :=
  let cs := Text.skipBlank cs
  match (cs.take most).takeWhile isDigit with
  | [] => none
  | ds => some (numberOf ds, cs.drop ds.length)

/-- a year: four digits at most, or any number of them behind a sign -/
def year? (cs : List Char) : Option (Int × List Char) :=
  match Text.skipBlank cs with
  | '-' :: rest => if (rest.head?.map isDigit).getD false then
      (number? rest.length rest).map fun r => (-(r.1 : Int), r.2) else none
  | '+' :: rest => if (rest.head?.map isDigit).getD false then
      (number? rest.length rest).map fun r => ((r.1 : Int), r.2) else none
  | rest => (number? 4 rest).map fun r => ((r.1 : Int), r.2)

/-- the mark `c` behind blanks -/
def mark? (c : Char) (cs : List Char) : Option (List Char) :=
  match Text.skipBlank cs with
  | d :: rest => if d = c then some rest else none
  | [] => none

/-- a fraction of a second in nanoseconds; digits after the ninth are dropped -/
def fraction? : List Char → Option (Nat × List Char)
  | '.' :: rest =>
    match rest.takeWhile isDigit with
    | [] => none
    | ds =>
      let kept := ds.take 9
      some (numberOf kept * Nat.pow 10 (9 - kept.length), rest.dropWhile isDigit)
  | cs => some (0, cs)

/-- two digits, the first at most `most` -/
def twoDigits? (most : Char) : List Char → Option (Nat × List Char)
  | a :: b :: rest =>
    if isDigit a ∧ a ≤ most ∧ isDigit b then some (numberOf [a, b], rest) else none
  | _ => none

def isColonOrBlank (c : Char) : Bool := c = ':' || Text.isBlank c

/-- hours and minutes of an offset, in seconds -/
def offsetSize? (cs : List Char) : Option (Nat × List Char) := do
  let (hours, cs) ← twoDigits? '9' cs
  let (minutes, cs) ← twoDigits? '5' (cs.dropWhile isColonOrBlank)
  return (hours * 3600 + minutes * 60, cs)

/-- the distance from UTC in seconds: `Z`, `UTC`, or a sign (the minus may be U+2212) with hours and minutes -/
def offset? (cs : List Char) : Option (Int × List Char) :=
  match cs with
  | 'z' :: rest => some (0, rest)
  | 'Z' :: rest => some (0, rest)
  | '+' :: rest => (offsetSize? rest).map fun r => ((r.1 : Int), r.2)
  | '-' :: rest => (offsetSize? rest).map fun r => (-(r.1 : Int), r.2)
  | '\u2212' :: rest => (offsetSize? rest).map fun r => (-(r.1 : Int), r.2)
  | u :: t :: c :: rest =>
    if u.toLower = 'u' ∧ t.toLower = 't' ∧ c.toLower = 'c' then some (0, rest) else none
  | _ => none

/-- the mark between date and time -/
def isSeparator (c : Char) : Bool := c = 't' ∨ c = 'T' ∨ c = ' '

/-- The instant of an RFC 3339 text. Blanks may stand between its parts, and a second numbered 60 is a leap second. -/
def parse? (text : String) : Option Instant := do
  let (year, cs) ← year? text.toList
  let cs ← mark? '-' cs
  let (month, cs) ← number? 2 cs
  let cs ← mark? '-' cs
  let (day, cs) ← number? 2 cs
  let (separator, cs) ← match cs with
    | c :: rest => some (c, rest)
    | [] => none
  guard (isSeparator separator)
  let (hour, cs) ← number? 2 cs
  let cs ← mark? ':' cs
  let (minute, cs) ← number? 2 cs
  let cs ← mark? ':' cs
  let (second, cs) ← number? 2 cs
  let (fraction, cs) ← fraction? cs
  let (offset, cs) ← offset? (Text.skipBlank cs)
  guard (Text.skipBlank cs).isEmpty
  guard (inRange year ∧ 1 ≤ month ∧ month ≤ 12 ∧ 1 ≤ day ∧ day ≤ daysInMonth year month)
  guard (hour ≤ 23 ∧ minute ≤ 59 ∧ second ≤ 60)
  guard (offset.natAbs < 86400)
  let leap := second = 60
  let onClock := daysOf year month day * 86400 + hour * 3600 + minute * 60 + (if leap then 59 else second)
  let seconds := onClock - offset
  guard (inRange (dateOf (Int.fdiv seconds 86400)).1)
  return ⟨seconds, fraction + if leap then 1000000000 else 0⟩

end Instant

end SensorNode
