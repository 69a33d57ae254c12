/-!
# Moments

A moment is counted in seconds from the beginning of 1970 and in billionths of a second; a leap
second shares the count of the second before it and has a billion or more billionths. Moments are
read from and written as calendar dates with a time of day and an offset.

## Main definitions

* `Date.Day.number` — the number of a calendar day, and `Date.Day.ofNumber` back
* `Moment` — a moment
* `Moment.parse?` — the moment that a text stands for
* `Moment.write` — the text of a moment, given the text for the offset
-/

namespace Harvest

namespace Date

/-- A day of the calendar. -/
structure Day where
  /-- The year; the year before the first one is zero. -/
  year : Int
  /-- The month, from 1 to 12. -/
  month : Nat
  /-- The day of the month, from 1. -/
  day : Nat
  deriving DecidableEq, Repr

/-- Whether a year has a 29th of February. -/
def isLeap (year : Int) : Bool := year % 4 == 0 && (year % 100 != 0 || year % 400 == 0)

/-- The number of days of a month. -/
def daysOfMonth (year : Int) (month : Nat) : Nat :=
  if month = 2 then (if isLeap year then 29 else 28)
  else if month = 4 ∨ month = 6 ∨ month = 9 ∨ month = 11 then 30
  else 31

/-- The number of days from the beginning of 1970 to a day. Years are counted from their first of
March, so that a leap day comes last, within cycles of four hundred years, which repeat. -/
def Day.number (d : Day) : Int :=
  let y : Int := if d.month ≤ 2 then d.year - 1 else d.year
  let era := Int.fdiv y 400
  let yearOfEra := (y - era * 400).toNat
  let m := (d.month + 9) % 12
  let dayOfYear := (153 * m + 2) / 5 + d.day - 1
  let dayOfEra := yearOfEra * 365 + yearOfEra / 4 - yearOfEra / 100 + dayOfYear
  era * 146097 + dayOfEra - 719468

/-- The day with a number. -/
def Day.ofNumber (n : Int) : Day :=
  let z := n + 719468
  let era := Int.fdiv z 146097
  let dayOfEra := (z - era * 146097).toNat
  let yearOfEra := (dayOfEra - dayOfEra / 1460 + dayOfEra / 36524 - dayOfEra / 146096) / 365
  let dayOfYear := dayOfEra - (365 * yearOfEra + yearOfEra / 4 - yearOfEra / 100)
  let m := (5 * dayOfYear + 2) / 153
  let month := if m < 10 then m + 3 else m - 9
  let year : Int := yearOfEra + era * 400
  ⟨if month ≤ 2 then year + 1 else year, month, dayOfYear - (153 * m + 2) / 5 + 1⟩

/-- The number of exactly `n` digits at the beginning of a text, and the text after it. -/
def digits? : Nat → Nat → List Char → Option (Nat × List Char)
  | 0, value, s => some (value, s)
  | n + 1, value, c :: s =>
    if c.isDigit then digits? n (value * 10 + (c.toNat - '0'.toNat)) s else none
  | _ + 1, _, [] => none

/-- The text after a certain character. -/
def skip? (c : Char) : List Char → Option (List Char)
  | d :: s => if d == c then some s else none
  | [] => none

/-- The billionths of a second behind a point: the first nine digits count. -/
def fraction? (s : List Char) : Option (Nat × List Char) :=
  let ds := s.takeWhile Char.isDigit
  let counted := ds.take 9
  if ds.isEmpty then none
  else
    let value := counted.foldl (fun n c => n * 10 + (c.toNat - '0'.toNat)) 0
    some (value * Nat.pow 10 (9 - counted.length), s.dropWhile Char.isDigit)

/-- An offset in seconds at the end of a text: the letter Z, or hours and minutes with a sign. -/
def offset? : List Char → Option Int
  | ['Z'] | ['z'] => some 0
  | sign :: s => do
    guard (sign == '+' || sign == '-' || sign.toNat == 0x2212)
    let (hours, s) ← digits? 2 0 s
    let s ← skip? ':' s
    let (minutes, s) ← digits? 2 0 s
    guard (s.isEmpty && minutes < 60 && hours < 24)
    let seconds : Int := hours * 3600 + minutes * 60
    return if sign == '+' then seconds else -seconds
  | [] => none

/-- A number with at least `width` digits. -/
def padded (width n : Nat) : String :=
  let ds := Nat.toDigits 10 n
  String.ofList (List.replicate (width - ds.length) '0' ++ ds)

/-- A year with at least four digits, and with a sign outside the years 0 to 9999. -/
def yearText (year : Int) : String :=
  if 0 ≤ year ∧ year ≤ 9999 then padded 4 year.toNat
  else (if year < 0 then "-" else "+") ++ padded 4 year.natAbs

end Date

/-- A moment. -/
structure Moment where
  /-- Seconds since the beginning of 1970. -/
  seconds : Int
  /-- Billionths of a second; a billion or more in a leap second. -/
  nanos : Nat
  deriving DecidableEq, Repr

namespace Moment

/-- The moment 1 700 000 000, a fixed moment in November 2023. -/
def reference : Moment := ⟨1700000000, 0⟩

/-- The moment that a text stands for: a date, the letter T or a space, a time of day with or
without a fraction of a second, and an offset. -/
def parse? (text : String) : Option Moment := do
  let (year, s) ← Date.digits? 4 0 text.toList
  let s ← Date.skip? '-' s
  let (month, s) ← Date.digits? 2 0 s
  let s ← Date.skip? '-' s
  let (day, s) ← Date.digits? 2 0 s
  let s ← (Date.skip? 'T' s).or ((Date.skip? 't' s).or (Date.skip? ' ' s))
  let (hour, s) ← Date.digits? 2 0 s
  let s ← Date.skip? ':' s
  let (minute, s) ← Date.digits? 2 0 s
  let s ← Date.skip? ':' s
  let (second, s) ← Date.digits? 2 0 s
  let (nanos, s) ←
    match s with
    | '.' :: r => Date.fraction? r
    | r => some (0, r)
  let offset ← Date.offset? s
  guard (1 ≤ month && month ≤ 12 && 1 ≤ day && day ≤ Date.daysOfMonth year month)
  guard (hour < 24 && minute < 60 && second ≤ 60)
  let leap := second == 60
  let clock : Int := hour * 3600 + minute * 60 + (if leap then 59 else second)
  let days := Date.Day.number ⟨year, month, day⟩
  return ⟨days * 86400 + clock - offset, if leap then nanos + 1000000000 else nanos⟩

/-- The fraction of a second with as many groups of three digits as it needs. -/
def fractionText (nanos : Nat) : String :=
  if nanos = 0 then ""
  else if nanos % 1000000 = 0 then "." ++ Date.padded 3 (nanos / 1000000)
  else if nanos % 1000 = 0 then "." ++ Date.padded 6 (nanos / 1000)
  else "." ++ Date.padded 9 nanos

/-- The text of a moment, `zone` standing for the offset zero. -/
def write (m : Moment) (zone : String) : String :=
  let day := Date.Day.ofNumber (Int.fdiv m.seconds 86400)
  let clock := (Int.fmod m.seconds 86400).toNat
  let leap := 1000000000 ≤ m.nanos
  let second := clock % 60 + (if leap then 1 else 0)
  let nanos := if leap then m.nanos - 1000000000 else m.nanos
  Date.yearText day.year ++ "-" ++ Date.padded 2 day.month ++ "-" ++ Date.padded 2 day.day ++ "T" ++
    Date.padded 2 (clock / 3600) ++ ":" ++ Date.padded 2 (clock / 60 % 60) ++ ":" ++
    Date.padded 2 second ++ fractionText nanos ++ zone

/-- The text of a moment with the offset written out. -/
def withOffset (m : Moment) : String := m.write "+00:00"

/-- The text of a moment that ends in the letter Z. -/
def withZ (m : Moment) : String := m.write "Z"

end Moment

end Harvest
