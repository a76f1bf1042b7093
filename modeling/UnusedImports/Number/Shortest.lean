import UnusedImports.Number.Binary64
import UnusedImports.Text

/-!
# The shortest decimal text of a number

A finite number is written with the fewest significant digits that `Binary64.ofDecimal` reads
back as the same number; of the candidates with that many digits the nearest is taken.

The text is positional if the first digit stands at one of the powers of ten from `-4` to `15`,
and then keeps at least one digit after the point. Otherwise it has one digit before the point,
and an exponent with a sign and at least two digits.
-/

set_option autoImplicit false

namespace UnusedImports.Binary64

/-! ## The digits -/

/-- An integer that is at least the number of digits of `mantissa * 2 ^ exponent` before the
point. -/
def digitBound (mantissa : Nat) (exponent : Int) : Int :=
  (((mantissa.log2 : Int) + exponent) * 30103).fdiv 100000 + 2

/-- `mantissa * 2 ^ exponent` divided by `10 ^ power`, as a quotient. -/
def overPowerOfTen (mantissa : Nat) (exponent power : Int) : Nat × Nat :=
  let (n, d) := scaled mantissa 1 (-exponent)
  if power < 0 then (n * Nat.pow 10 power.natAbs, d) else (n, d * Nat.pow 10 power.natAbs)

/-- The multiple of `10 ^ power` that reads back as the number: the nearer of its two neighbours
among those multiples, or the one of them that does. -/
def readsBack? (mantissa : Nat) (exponent power : Int) : Option Nat :=
  let (n, d) := overPowerOfTen mantissa exponent power
  let below := n / d
  let good (digits : Nat) : Bool :=
    ofDecimal false digits power = .finite false mantissa exponent
  let nearest := roundHalfEven n d
  if good nearest then some nearest
  else if good below then some below
  else if good (below + 1) then some (below + 1)
  else none

/-- The digits and the power of ten of the shortest decimal that reads back. -/
def shortest (mantissa : Nat) (exponent : Int) : Nat × Int :=
  let bound := digitBound mantissa exponent
  let attempt (count : Nat) : Option (Nat × Int) :=
    (readsBack? mantissa exponent (bound - count)).map (·, bound - count)
  ((List.range 21).findSome? attempt).getD (mantissa, exponent)

/-! ## The layout -/

/-- A list of digits without the zeros at its end. -/
def trimZeros (digits : Text) : Text :=
  (digits.reverse.dropWhile (· = '0')).reverse

/-- The exponent of the scientific form: a sign and at least two digits. -/
def exponentText (e : Int) : Text :=
  let digits := Text.ofNat e.natAbs
  (if e < 0 then '-' else '+') :: (if digits.length < 2 then '0' :: digits else digits)

/-- Digits with the point after the first `point` of them, zeros filling the places between. -/
def positional (digits : Text) (point : Int) : Text :=
  if point ≤ 0 then '0' :: '.' :: (List.replicate point.natAbs '0' ++ digits)
  else if (digits.length : Int) ≤ point then
    digits ++ List.replicate (point.toNat - digits.length) '0' ++ ['.', '0']
  else digits.take point.toNat ++ '.' :: digits.drop point.toNat

/-- Digits with the point after the first of them, and the exponent `e`. -/
def scientific (digits : Text) (e : Int) : Text :=
  match digits with
  | [] => []
  | [d] => d :: 'e' :: exponentText e
  | d :: rest => d :: '.' :: (rest ++ 'e' :: exponentText e)

/-- The text of a positive finite number. -/
def magnitudeText (mantissa : Nat) (exponent : Int) : Text :=
  let (value, power) := shortest mantissa exponent
  let digits := Text.ofNat value
  let point := (digits.length : Int) + power
  if -4 < point && point ≤ 16 then positional (trimZeros digits) point
  else scientific (trimZeros digits) (point - 1)

/-- The shortest text that reads back as the number. -/
def text : Binary64 → Text
  | .finite negative mantissa exponent =>
    let magnitude := if mantissa = 0 then "0.0".toList else magnitudeText mantissa exponent
    if negative then '-' :: magnitude else magnitude
  | .infinite negative => if negative then "-inf".toList else "inf".toList
  | .nan => "nan".toList

end UnusedImports.Binary64
