import UnusedImports.Text

/-!
# Dates and moments

A stamp is a day, or a moment of a day with an optional distance from universal time.
`Stamp.text` writes it in the international form and `Stamp.literal` as a constructor with its
parts. Moments whose distance from universal time is known are compared by `Date.instant`, so that
one moment is the same in all zones.
-/

set_option autoImplicit false

namespace UnusedImports

/-- A day of the calendar. -/
structure Date where
  year : Nat
  month : Nat
  day : Nat
  deriving DecidableEq, Repr

/-- A time of day; `zone` counts minutes east of universal time. -/
structure Clock where
  hour : Nat
  minute : Nat
  second : Nat
  micro : Nat
  zone : Option Int
  deriving DecidableEq, Repr

/-- A day or a moment. -/
inductive Stamp where
  | date (d : Date)
  | moment (d : Date) (c : Clock)
  deriving DecidableEq, Repr

namespace Date

/-- Every fourth year is a leap year, but of the full centuries only every fourth. -/
def isLeap (year : Nat) : Bool :=
  year % 4 = 0 && (year % 100 ≠ 0 || year % 400 = 0)

/-- The number of days of a month. -/
def monthLength (year month : Nat) : Nat :=
  if month = 2 then (if isLeap year then 29 else 28)
  else if month = 4 || month = 6 || month = 9 || month = 11 then 30
  else 31

/-- The day exists. -/
def isValid (d : Date) : Bool :=
  1 ≤ d.year && d.year ≤ 9999 && 1 ≤ d.month && d.month ≤ 12 && 1 ≤ d.day
    && d.day ≤ monthLength d.year d.month

/-- The number of leap years before a year. -/
def leapYearsBefore (year : Nat) : Nat :=
  (year - 1) / 4 - (year - 1) / 100 + (year - 1) / 400

/-- The number of days from the first day of the year one. -/
def dayNumber (d : Date) : Int :=
  let months := (List.range (d.month - 1)).map fun m => monthLength d.year (m + 1)
  ((d.year - 1) * 365 + leapYearsBefore d.year + months.foldl (· + ·) 0 + d.day : Nat) - 1

end Date

namespace Clock

/-- Millionths of a second since midnight. -/
def micros (c : Clock) : Int :=
  (((c.hour * 60 + c.minute) * 60 + c.second) * 1000000 + c.micro : Nat)

/-- The time exists, and lies less than a day from universal time. -/
def isValid (c : Clock) : Bool :=
  c.hour < 24 && c.minute < 60 && c.second < 60 && c.micro < 1000000
    && (match c.zone with
      | some z => z.natAbs < 24 * 60
      | none => true)

end Clock

/-- Millionths of a second from the start of the calendar to a moment, in universal time. -/
def Date.instant (d : Date) (c : Clock) (zone : Int) : Int :=
  d.dayNumber * 86400000000 + c.micros - zone * 60000000

namespace Stamp

/-- The stamp exists. -/
def isValid : Stamp → Bool
  | .date d => d.isValid
  | .moment d c => d.isValid && c.isValid

/-- A number with zeros in front of it up to `width` digits. -/
def padded (width n : Nat) : Text :=
  let digits := Text.ofNat n
  List.replicate (width - digits.length) '0' ++ digits

/-- Year, month and day. -/
def dateText (d : Date) : Text :=
  padded 4 d.year ++ '-' :: padded 2 d.month ++ '-' :: padded 2 d.day

/-- Hour and minute of the distance from universal time, with its sign. -/
def zoneText (z : Int) : Text :=
  (if z < 0 then '-' else '+') :: padded 2 (z.natAbs / 60) ++ ':' :: padded 2 (z.natAbs % 60)

/-- Hour, minute and second, a fraction if there is one, and the zone if it is known. -/
def clockText (c : Clock) : Text :=
  padded 2 c.hour ++ ':' :: padded 2 c.minute ++ ':' :: padded 2 c.second
    ++ (if c.micro = 0 then [] else '.' :: padded 6 c.micro)
    ++ (match c.zone with
      | some z => zoneText z
      | none => [])

/-- The stamp in the international form. -/
def text : Stamp → Text
  | .date d => dateText d
  | .moment d c => dateText d ++ ' ' :: clockText c

/-- The parts of a date. -/
def dateParts (d : Date) : List Text :=
  [Text.ofNat d.year, Text.ofNat d.month, Text.ofNat d.day]

/-- The parts of a time; seconds and fractions are left out if they are zero. -/
def clockParts (c : Clock) : List Text :=
  [Text.ofNat c.hour, Text.ofNat c.minute]
    ++ (if c.second = 0 && c.micro = 0 then [] else [Text.ofNat c.second])
    ++ (if c.micro = 0 then [] else [Text.ofNat c.micro])

/-- A zone as a constructor: the distance is split into whole days, rounded down, and seconds. -/
def zoneLiteral (z : Int) : Text :=
  if z = 0 then "datetime.timezone.utc".toList
  else
    let day := "days=-1, ".toList
    "datetime.timezone(datetime.timedelta(".toList ++ (if z < 0 then day else [])
      ++ "seconds=".toList ++ Text.ofInt ((z * 60) % 86400) ++ "))".toList

/-- The stamp as a constructor applied to its parts. -/
def literal : Stamp → Text
  | .date d => "datetime.date(".toList ++ Text.join ", ".toList (dateParts d) ++ [')']
  | .moment d c =>
    let zone := match c.zone with
      | some z => ["tzinfo=".toList ++ zoneLiteral z]
      | none => []
    "datetime.datetime(".toList
      ++ Text.join ", ".toList (dateParts d ++ clockParts c ++ zone) ++ [')']

end Stamp

end UnusedImports
