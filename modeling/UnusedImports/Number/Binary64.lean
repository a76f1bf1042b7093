/-!
# Binary floating point numbers of 64 bits

A number is a sign with a natural mantissa times a power of two, an infinity, or not a number.
The representation is canonical: the mantissa has 53 bits, or fewer only at the least exponent,
so two finite numbers are the same exactly if their parts are, but for the two zeros.

* `Binary64.ofRatio` rounds a quotient of natural numbers to the nearest number, a tie to the
  even mantissa.
* `Binary64.ofDecimal` reads decimal digits with a power of ten through `ofRatio`.
* `Binary64.integer?` gives the integer that a number equals.
-/

set_option autoImplicit false

namespace UnusedImports

/-- A floating point number: `finite negative mantissa exponent` is `± mantissa * 2 ^ exponent`. -/
inductive Binary64 where
  | finite (negative : Bool) (mantissa : Nat) (exponent : Int)
  | infinite (negative : Bool)
  | nan
  deriving DecidableEq, Repr

namespace Binary64

/-- The exponent of the least positive number. -/
def minExponent : Int := -1074

/-- The exponent of the greatest finite numbers. -/
def maxExponent : Int := 971

/-- The number of values that a full mantissa has below its leading bit. -/
def mantissaUnit : Nat := Nat.pow 2 52

/-- The zero of a sign. -/
def zero (negative : Bool) : Binary64 :=
  .finite negative 0 minExponent

/-- The number is a zero of either sign. -/
def isZero : Binary64 → Bool
  | .finite _ mantissa _ => mantissa = 0
  | _ => false

/-- The numerator and the denominator of `num / den` divided by `2 ^ exponent`. -/
def scaled (num den : Nat) (exponent : Int) : Nat × Nat :=
  if exponent < 0 then (num * Nat.pow 2 exponent.natAbs, den)
  else (num, den * Nat.pow 2 exponent.natAbs)

/-- The quotient of two natural numbers to the nearest one, a tie to the even one. -/
def roundHalfEven (num den : Nat) : Nat :=
  let quotient := num / den
  let twice := 2 * (num % den)
  if den < twice || (den = twice && quotient % 2 = 1) then quotient + 1 else quotient

/-- The exponent at which the mantissa of `num / den` has 53 bits, but not below the least one. -/
def exponentOf (num den : Nat) : Int :=
  let guess : Int := (num.log2 : Int) - den.log2 - 52
  let (n, d) := scaled num den guess
  max minExponent (if n < d * mantissaUnit then guess - 1 else guess)

/-- The number nearest to `± num / den`. -/
def ofRatio (negative : Bool) (num den : Nat) : Binary64 :=
  if num = 0 then zero negative
  else
    let exponent := exponentOf num den
    let (n, d) := scaled num den exponent
    let mantissa := roundHalfEven n d
    let (mantissa, exponent) :=
      if mantissa = 2 * mantissaUnit then (mantissaUnit, exponent + 1) else (mantissa, exponent)
    if maxExponent < exponent then .infinite negative else .finite negative mantissa exponent

/-- The number nearest to `± digits * 10 ^ exponent`. Powers of ten far beyond the range of the
format are decided without computing them. -/
def ofDecimal (negative : Bool) (digits : Nat) (exponent : Int) : Binary64 :=
  let size : Int := digits.log2
  if digits = 0 then zero negative
  else if 400 < exponent then .infinite negative
  else if exponent < -400 - size then zero negative
  else if 0 ≤ exponent then ofRatio negative (digits * Nat.pow 10 exponent.natAbs) 1
  else ofRatio negative digits (Nat.pow 10 exponent.natAbs)

/-- The number nearest to an integer. -/
def ofInt : Int → Binary64
  | .ofNat n => ofRatio false n 1
  | .negSucc n => ofRatio true (n + 1) 1

/-- The integer that the number equals, if there is one. -/
def integer? : Binary64 → Option Int
  | .finite negative mantissa exponent =>
    let (n, d) := scaled mantissa 1 (-exponent)
    if n % d ≠ 0 then none
    else some (if negative then -(n / d : Nat) else (n / d : Nat))
  | _ => none

end Binary64

end UnusedImports
