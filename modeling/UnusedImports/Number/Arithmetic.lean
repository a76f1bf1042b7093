import UnusedImports.Number.Binary64

/-!
# Sums and products of floating point numbers

Finite numbers are added and multiplied exactly and then rounded to the nearest number. The sum of
opposite infinities and the product of an infinity and zero are not numbers.
-/

set_option autoImplicit false

namespace UnusedImports.Binary64

/-- The number is negative or a negative zero. -/
def isNegative : Binary64 → Bool
  | .finite negative _ _ => negative
  | .infinite negative => negative
  | .nan => false

/-- The absolute value of a finite number as a quotient of natural numbers. -/
def ratio (mantissa : Nat) (exponent : Int) : Nat × Nat :=
  scaled mantissa 1 (-exponent)

/-- A natural number with a sign. -/
def signed (negative : Bool) (n : Nat) : Int :=
  if negative then -n else n

/-- The sum of two numbers; a zero is negative only if both numbers are. -/
def add : Binary64 → Binary64 → Binary64
  | .finite s m e, .finite t k f =>
    let (a, b) := ratio m e
    let (c, d) := ratio k f
    let sum := signed s (a * d) + signed t (c * b)
    ofRatio (if sum = 0 then s && t else sum < 0) sum.natAbs (b * d)
  | .infinite s, .infinite t => if s = t then .infinite s else .nan
  | .infinite s, .finite _ _ _ => .infinite s
  | .finite _ _ _, .infinite t => .infinite t
  | .nan, _ => .nan
  | _, .nan => .nan

/-- The product of two numbers. -/
def mul (x y : Binary64) : Binary64 :=
  let negative := x.isNegative != y.isNegative
  match x, y with
  | .finite _ m e, .finite _ k f =>
    let (a, b) := ratio m e
    let (c, d) := ratio k f
    ofRatio negative (a * c) (b * d)
  | .nan, _ => .nan
  | _, .nan => .nan
  | x, y => if x.isZero || y.isZero then .nan else .infinite negative

/-- The number with the other sign. -/
def neg : Binary64 → Binary64
  | .finite negative mantissa exponent => .finite (!negative) mantissa exponent
  | .infinite negative => .infinite (!negative)
  | .nan => .nan

end UnusedImports.Binary64
