import UnusedImports.Value.Stamp
import UnusedImports.Yaml.Cursor

/-!
# Dates in documents

A date is written as a year of four digits, a month and a day. A time may follow it: after a `T`
or blanks, with an optional fraction of a second and an optional zone.
-/

set_option autoImplicit false

namespace UnusedImports.Yaml.Timestamp

/-- The number that digits denote. -/
def number (digits : Text) : Nat :=
  digits.foldl (fun n c => n * 10 + (c.toNat - 48)) 0

/-- At least `least` and at most `most` digits, and the text behind them. -/
def digits? (least most : Nat) (t : Text) : Option (Text × Text) :=
  let ds := (t.take most).takeWhile Char.isDigit
  if ds.length < least then none else some (ds, t.drop ds.length)

/-- The text behind a character. -/
def after? (c : Char) : Text → Option Text
  | x :: rest => if x = c then some rest else none
  | [] => none

/-- Year, month and day, whether both of the latter have two digits, and the text behind them. -/
def date? (t : Text) : Option (Date × Bool × Text) := do
  let (year, t) ← digits? 4 4 t
  let t ← after? '-' t
  let (month, t) ← digits? 1 2 t
  let t ← after? '-' t
  let (day, t) ← digits? 1 2 t
  return (⟨number year, number month, number day⟩, month.length = 2 && day.length = 2, t)

/-- A fraction of a second in millionths, and the text behind it. Further digits are dropped. -/
def fraction : Text → Nat × Text
  | '.' :: t =>
    let ds := (t.takeWhile Char.isDigit).take 6
    (number ds * Nat.pow 10 (6 - ds.length), t.dropWhile Char.isDigit)
  | t => (0, t)

/-- The minutes of a zone behind its sign; nothing may follow. -/
def zoneMinutes? (t : Text) : Option Nat := do
  let (hours, t) ← digits? 1 2 t
  match t with
  | [] => return number hours * 60
  | t =>
    let t ← after? ':' t
    let (minutes, t) ← digits? 2 2 t
    if t.isEmpty then return number hours * 60 + number minutes else none

/-- The zone at the end of a time, if there is one. -/
def zone? (t : Text) : Option (Option Int) :=
  match t.dropWhile isSpace with
  | [] => if t.isEmpty then some none else none
  | ['Z'] => some (some 0)
  | '+' :: rest => (zoneMinutes? rest).map fun n => some (n : Int)
  | '-' :: rest => (zoneMinutes? rest).map fun n => some (-(n : Int))
  | _ => none

/-- A time to the end of the text. -/
def clock? (t : Text) : Option Clock := do
  let (hour, t) ← digits? 1 2 t
  let t ← after? ':' t
  let (minute, t) ← digits? 2 2 t
  let t ← after? ':' t
  let (second, t) ← digits? 2 2 t
  let (micro, t) := fraction t
  let zone ← zone? t
  return ⟨number hour, number minute, number second, micro, zone⟩

/-- The text behind what separates a date from a time. -/
def separated? : Text → Option Text
  | [] => none
  | c :: rest =>
    if c = 'T' || c = 't' then some rest
    else if isSpace c then some (rest.dropWhile isSpace)
    else none

/-- The stamp that a text denotes. -/
def stamp? (t : Text) : Option Stamp := do
  let (d, _, rest) ← date? t
  if rest.isEmpty then return .date d
  return .moment d (← clock? (← separated? rest))

/-- A plain scalar of this form is a date. A date without a time needs two digits for month and
day. -/
def isPlainStamp (t : Text) : Bool :=
  match date? t with
  | some (_, isFull, []) => isFull
  | some _ => (stamp? t).isSome
  | none => false

end UnusedImports.Yaml.Timestamp
