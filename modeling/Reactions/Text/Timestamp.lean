import Reactions.Text.Decimal
import Reactions.Text.Blank

/-!
# Points in time

A time is kept as its calendar fields in UTC, to the nanosecond; second 60 is a leap second. It
is written as RFC 3339 with a `Z` and as many fraction digits as it needs, in groups of three.
Reading takes the same format more freely: short or blank-separated fields, a space or a small
letter between date and time, any offset below a day, fractions of any length, blanks at either
end.
-/

namespace Reactions

/-- The number of days of a month. -/
def daysInMonth (year : Int) (month : Nat) : Nat :=
  if month = 2 then
    if (year % 4 = 0 ∧ year % 100 ≠ 0) ∨ year % 400 = 0 then 29 else 28
  else if month = 4 ∨ month = 6 ∨ month = 9 ∨ month = 11 then 30
  else 31

/-- A day of the proleptic Gregorian calendar. -/
structure Date where
  year : Int
  month : Nat
  day : Nat
deriving DecidableEq, Repr

namespace Date

/-- The day exists, and its year is within the range of the calendar. -/
def Valid (d : Date) : Prop :=
  -262143 ≤ d.year ∧ d.year ≤ 262142 ∧ 1 ≤ d.month ∧ d.month ≤ 12 ∧
    1 ≤ d.day ∧ d.day ≤ daysInMonth d.year d.month

instance (d : Date) : Decidable d.Valid := inferInstanceAs (Decidable (_ ∧ _))

/-- The day after. -/
def next (d : Date) : Date :=
  if d.day < daysInMonth d.year d.month then { d with day := d.day + 1 }
  else if d.month < 12 then ⟨d.year, d.month + 1, 1⟩
  else ⟨d.year + 1, 1, 1⟩

/-- The day before. -/
def previous (d : Date) : Date :=
  if 1 < d.day then { d with day := d.day - 1 }
  else if 1 < d.month then ⟨d.year, d.month - 1, daysInMonth d.year (d.month - 1)⟩
  else ⟨d.year - 1, 12, 31⟩

end Date

/-- The fields of a point in time. -/
structure Moment where
  date : Date
  hour : Nat
  minute : Nat
  second : Nat
  nano : Nat
deriving DecidableEq, Repr

namespace Moment

/-- Every field is within its range. A minute may have a second 60. -/
def Valid (m : Moment) : Prop :=
  m.date.Valid ∧ m.hour < 24 ∧ m.minute < 60 ∧ m.second ≤ 60 ∧ m.nano < Nat.pow 10 9

instance (m : Moment) : Decidable m.Valid := inferInstanceAs (Decidable (_ ∧ _))

/-- The moment a number of minutes earlier; less than a day in either direction. -/
def minusMinutes (m : Moment) (minutes : Int) : Moment :=
  let t : Int := 60 * m.hour + m.minute - minutes
  let (date, t) :=
    if t < 0 then (m.date.previous, t + 1440)
    else if t < 1440 then (m.date, t)
    else (m.date.next, t - 1440)
  { m with date, hour := t.toNat / 60, minute := t.toNat % 60 }

end Moment

/-- A point in time, in UTC. -/
structure Timestamp where
  moment : Moment
  valid : moment.Valid
deriving DecidableEq

namespace Timestamp

/-- The moment with the given fields, if there is one. -/
def ofMoment? (m : Moment) : Option Timestamp :=
  if h : m.Valid then some ⟨m, h⟩ else none

/-- The first moment of 1970. -/
def epoch : Timestamp := ⟨⟨⟨1970, 1, 1⟩, 0, 0, 0, 0⟩, by decide⟩

instance : Inhabited Timestamp := ⟨epoch⟩

/-! ## Writing -/

/-- A year: four digits up to 9999, a sign in front of all others. -/
def writeYear (year : Int) : List Char :=
  if 0 ≤ year ∧ year ≤ 9999 then Decimal.padded 4 year.toNat
  else (if year < 0 then '-' else '+') :: Decimal.padded 4 year.natAbs

/-- The fraction of a second, with none, three, six or nine digits. -/
def writeFraction (nano : Nat) : List Char :=
  if nano = 0 then []
  else if nano % Nat.pow 10 6 = 0 then '.' :: Decimal.padded 3 (nano / Nat.pow 10 6)
  else if nano % Nat.pow 10 3 = 0 then '.' :: Decimal.padded 6 (nano / Nat.pow 10 3)
  else '.' :: Decimal.padded 9 nano

/-- The written form of a time. -/
def write (t : Timestamp) : String :=
  let m := t.moment
  String.ofList <|
    writeYear m.date.year ++ '-' :: Decimal.padded 2 m.date.month ++
      '-' :: Decimal.padded 2 m.date.day ++ 'T' :: Decimal.padded 2 m.hour ++
      ':' :: Decimal.padded 2 m.minute ++ ':' :: Decimal.padded 2 m.second ++
      writeFraction m.nano ++ ['Z']

/-! ## Reading -/

/-- Up to `width` digits, at least one, and the text after them. -/
def readNumber (width : Nat) (cs : List Char) : Option (Nat × List Char) :=
  let run := (cs.take width).takeWhile Decimal.isDigit
  if run.isEmpty then none else some (Decimal.ofDigits run, cs.drop run.length)

/-- A field of up to two digits, after blanks. -/
def readField (cs : List Char) : Option (Nat × List Char) := readNumber 2 (skipBlanks cs)

/-- A year, after blanks: up to four digits, or a sign and any number of them. -/
def readYear (cs : List Char) : Option (Int × List Char) :=
  match skipBlanks cs with
  | '-' :: cs => (readNumber cs.length cs).map fun (n, rest) => (-(n : Int), rest)
  | '+' :: cs => (readNumber cs.length cs).map fun (n, rest) => ((n : Int), rest)
  | cs => (readNumber 4 cs).map fun (n, rest) => ((n : Int), rest)

/-- A separator, after blanks. -/
def readMark (mark : Char) (cs : List Char) : Option (List Char) :=
  match skipBlanks cs with
  | c :: rest => if c = mark then some rest else none
  | [] => none

/-- A fraction of a second in nanoseconds; digits past the ninth are dropped. -/
def readFraction (cs : List Char) : Option (Nat × List Char) :=
  match cs with
  | '.' :: cs =>
    let run := cs.takeWhile Decimal.isDigit
    if run.isEmpty then none
    else
      let kept := run.take 9
      some (Decimal.ofDigits kept * Nat.pow 10 (9 - kept.length), cs.drop run.length)
  | cs => some (0, cs)

/-- Two digits that stand together. -/
def readPair : List Char → Option (Nat × List Char)
  | a :: b :: rest => do
    let hi ← Decimal.value? a
    let lo ← Decimal.value? b
    return (10 * hi + lo, rest)
  | _ => none

/-- An offset from UTC in minutes: `Z`, `UTC`, or a sign, hours and minutes. -/
def readOffset (cs : List Char) : Option (Int × List Char) :=
  match cs with
  | 'Z' :: rest | 'z' :: rest => some (0, rest)
  | sign :: rest =>
    if (cs.take 3).map Char.toUpper = ['U', 'T', 'C'] then some (0, cs.drop 3)
    else if sign = '+' ∨ sign = '-' ∨ sign = '\u2212' then do
      let (hours, rest) ← readPair rest
      let (minutes, rest) ← readPair (rest.dropWhile fun c => c = ':' || isBlank c)
      if minutes < 60 then
        let offset : Int := 60 * hours + minutes
        some (if sign = '+' then offset else -offset, rest)
      else none
    else none
  | [] => none

/-- Reads a time. Nothing but blanks may follow its offset. -/
def read? (text : String) : Option Timestamp := do
  let (year, cs) ← readYear text.toList
  let cs ← readMark '-' cs
  let (month, cs) ← readField cs
  let cs ← readMark '-' cs
  let (day, cs) ← readField cs
  let cs ← match cs with
    | 'T' :: rest | 't' :: rest | ' ' :: rest => some rest
    | _ => none
  let (hour, cs) ← readField cs
  let cs ← readMark ':' cs
  let (minute, cs) ← readField cs
  let cs ← readMark ':' cs
  let (second, cs) ← readField cs
  let (nano, cs) ← readFraction cs
  let (offset, cs) ← readOffset (skipBlanks cs)
  guard ((skipBlanks cs).isEmpty ∧ -1440 < offset ∧ offset < 1440)
  let wall : Moment := ⟨⟨year, month, day⟩, hour, minute, second, nano⟩
  guard wall.Valid
  ofMoment? (wall.minusMinutes offset)

end Timestamp

end Reactions
