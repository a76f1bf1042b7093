import UnusedImports.Number.Arithmetic
import UnusedImports.Text.Digit
import UnusedImports.Yaml.Failure
import UnusedImports.Yaml.Tag

/-!
# Numbers in documents

`Numeral.int` and `Numeral.float` give the number that the text of a scalar denotes. They accept
more than the plain forms, since a scalar can be tagged as a number whatever its text is:
surrounding blanks, digits of any script, and the mark of a base where it is known already.
-/

set_option autoImplicit false

namespace UnusedImports.Yaml.Numeral

/-! ## Integers -/

/-- The value of a digit in a base of up to sixteen. -/
def digit? (base : Nat) (c : Char) : Option Nat :=
  (Text.hexDigit? c).filter (· < base)

/-- The natural number that one or more digits denote. A decimal number may be too long. -/
def natural? (base : Nat) (t : Text) : Option Nat :=
  if t.isEmpty || (base = 10 && Text.longestNumber < t.length) then none
  else t.foldlM (fun n c => (digit? base c).map (n * base + ·)) 0

/-- The sign of a text and what follows it. -/
def signed (t : Text) : Bool × Text :=
  (t.head? = some '-', Tag.unsigned t)

/-- The letter that marks a base behind a zero. -/
def baseLetter? : Nat → Option Char
  | 2 => some 'b'
  | 8 => some 'o'
  | 16 => some 'x'
  | _ => none

/-- Digits without the mark of their base. -/
def unmarked (base : Nat) (t : Text) : Text :=
  match t with
  | '0' :: c :: digits => if baseLetter? base = some c.toLower then digits else t
  | t => t

/-- An integer with a sign, or without one for a positive number. -/
def withSign (negative : Bool) (n : Int) : Int :=
  if negative then -n else n

/-- The integer that digits with an optional sign denote. -/
def integer? (base : Nat) (t : Text) : Option Int :=
  let (negative, digits) := signed (Text.withAsciiDigits (Text.trimmed t))
  (natural? base (unmarked base digits)).map fun n => withSign negative n

/-- The number that parts between colons denote in base sixty. -/
def sexagesimal? (parts : List Text) : Option Int := do
  let digits ← parts.mapM (integer? 10)
  return digits.foldl (fun n d => n * 60 + d) 0

/-- A text without underscores. -/
def plainDigits (t : Text) : Text :=
  t.filter (· ≠ '_')

/-- The absolute value of an integer behind its sign. -/
def magnitude? (t : Text) : Option Int :=
  match t with
  | '0' :: 'b' :: digits => integer? 2 digits
  | '0' :: 'x' :: digits => integer? 16 digits
  | '0' :: _ => integer? 8 t
  | t => if t.contains ':' then sexagesimal? (t.cutAt ':') else integer? 10 t

/-- The integer that a text denotes. -/
def int (t : Text) : Except Failure Int :=
  let (negative, digits) := signed (plainDigits t)
  if digits.isEmpty then .error .emptyNumber
  else
    match magnitude? digits with
    | some n => .ok (withSign negative n)
    | none => .error .notNumber

/-! ## Floating point numbers -/

/-- The number that digits denote, however many there are. -/
def ofDigits (t : Text) : Nat :=
  t.foldl (fun n c => n * 10 + (c.toNat - '0'.toNat)) 0

/-- The exponent behind a decimal number; nothing stands for zero. -/
def exponent? : Text → Option Int
  | [] => some 0
  | c :: t =>
    let (negative, digits) := signed t
    if c = 'e' && Tag.isRun Char.isDigit digits then some (withSign negative (ofDigits digits))
    else none

/-- The number that decimal digits, an optional point and an optional exponent denote. -/
def decimal? (negative : Bool) (t : Text) : Option Binary64 := do
  let whole := t.takeWhile Char.isDigit
  let after := t.dropWhile Char.isDigit
  let (fraction, after) :=
    match after with
    | '.' :: rest => (rest.takeWhile Char.isDigit, rest.dropWhile Char.isDigit)
    | rest => ([], rest)
  let e ← exponent? after
  if whole.isEmpty && fraction.isEmpty then none
  else some (Binary64.ofDecimal negative (ofDigits (whole ++ fraction)) (e - fraction.length))

/-- The number that a text in lower case denotes. -/
def number? (t : Text) : Option Binary64 :=
  let (negative, rest) := signed (Text.withAsciiDigits (Text.trimmed t))
  if ["inf".toList, "infinity".toList].contains rest then some (.infinite negative)
  else if rest = "nan".toList then some .nan
  else decimal? negative rest

/-- The number that parts between colons denote in base sixty, the last part first. Every step is
rounded, but the units are exact. A unit beyond all floating point numbers cannot be used. -/
def sixtieths (total : Binary64) (unit : Nat) : List Binary64 → Except Failure Binary64
  | [] => .ok total
  | d :: ds =>
    match Binary64.ofRatio false unit 1 with
    | .infinite _ => .error .hugeUnit
    | u => sixtieths (total.add (d.mul u)) (unit * 60) ds

/-- The mark of what is not a number. -/
def nanMark : Text :=
  ".nan".toList

/-- The absolute value of a number behind its sign, in lower case. -/
def magnitudeOfFloat (t : Text) : Except Failure Binary64 :=
  if t = ".inf".toList then .ok (.infinite false)
  else if t = nanMark then .ok .nan
  else if t.contains ':' then
    match (t.cutAt ':').mapM number? with
    | some parts => sixtieths (Binary64.zero false) 1 parts.reverse
    | none => .error .notNumber
  else
    match number? t with
    | some x => .ok x
    | none => .error .notNumber

/-- The sign of a number, and what follows it without underscores and in lower case. -/
def floatParts (t : Text) : Bool × Text :=
  signed ((plainDigits t).map Char.toLower)

/-- The floating point number that a text denotes. -/
def float (t : Text) : Except Failure Binary64 :=
  if (plainDigits t).isEmpty then .error .emptyNumber
  else
    let (negative, rest) := floatParts t
    (magnitudeOfFloat rest).map fun x => if negative then x.neg else x

/-- The text says by its mark that it is not a number. -/
def isMarkedNan (t : Text) : Bool :=
  (floatParts t).2 = nanMark

end UnusedImports.Yaml.Numeral
