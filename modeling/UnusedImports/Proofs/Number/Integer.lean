import UnusedImports.Number.Binary64
import Mathlib.Algebra.Order.Field.Rat

/-!
# The integer that a floating point number equals

A finite number is a rational number (`Binary64.rational?`), and `Binary64.integer?` finds the
integer that it is, if it is one (`Binary64.integer?_eq_some_iff`), whatever its exponent.
-/

set_option autoImplicit false

namespace UnusedImports.Binary64

/-- The rational number that a finite number is. -/
def rational? : Binary64 → Option ℚ
  | .finite negative mantissa exponent =>
    some ((if negative then -1 else 1) * mantissa * 2 ^ exponent)
  | _ => none

/-- A scaled mantissa is the quotient of its parts. -/
theorem scaled_eq (mantissa : Nat) (exponent : Int) :
    0 < (scaled mantissa 1 (-exponent)).2 ∧
      (mantissa : ℚ) * 2 ^ exponent =
        (scaled mantissa 1 (-exponent)).1 / (scaled mantissa 1 (-exponent)).2 := by
  rw [scaled, Int.natAbs_neg]
  split
  · rename_i hneg
    obtain ⟨k, rfl⟩ := Int.eq_ofNat_of_zero_le (by omega : 0 ≤ exponent)
    refine ⟨Nat.one_pos, ?_⟩
    simp
  · -- a power with a negative exponent stands in the denominator
    rename_i hneg
    obtain ⟨k, hk⟩ := Int.eq_ofNat_of_zero_le (by omega : 0 ≤ -exponent)
    obtain rfl : exponent = -k := by omega
    refine ⟨by simp, ?_⟩
    simp [zpow_neg, div_eq_mul_inv]

/-- A quotient of natural numbers is an integer exactly if nothing is left over. -/
theorem natCast_div_eq_intCast_iff {num den : Nat} (hden : 0 < den) {n : Int} :
    (num : ℚ) / den = n ↔ num % den = 0 ∧ ((num / den : Nat) : Int) = n := by
  have hne : (den : ℚ) ≠ 0 := Nat.cast_ne_zero.2 hden.ne'
  rw [div_eq_iff hne]
  constructor
  · intro h
    have hint : (num : Int) = n * den := by exact_mod_cast h
    have hdvd : den ∣ num := Int.natCast_dvd_natCast.1 ⟨n, by rw [hint, mul_comm]⟩
    refine ⟨Nat.mod_eq_zero_of_dvd hdvd, ?_⟩
    rw [Int.natCast_div, hint, Int.mul_ediv_cancel n (by exact_mod_cast hden.ne')]
  · rintro ⟨hmod, rfl⟩
    have hmul : num / den * den = num := Nat.div_mul_cancel (Nat.dvd_of_mod_eq_zero hmod)
    rw [Int.cast_natCast, ← Nat.cast_mul, hmul]

/-- The integer that a number equals is its rational value. -/
theorem integer?_eq_some_iff {x : Binary64} {n : Int} :
    x.integer? = some n ↔ x.rational? = some (n : ℚ) := by
  cases x with
  | finite negative mantissa exponent =>
    obtain ⟨hden, hvalue⟩ := scaled_eq mantissa exponent
    rw [rational?, mul_assoc, hvalue, integer?]
    generalize scaled mantissa 1 (-exponent) = parts at hden ⊢
    obtain ⟨num, den⟩ := parts
    simp only [Option.some.injEq]
    -- the sign goes to the integer, since the quotient is one of natural numbers
    cases negative with
    | false =>
      rw [if_neg Bool.false_ne_true, if_neg Bool.false_ne_true, one_mul,
        natCast_div_eq_intCast_iff hden]
      split <;> simp_all
    | true =>
      rw [if_pos rfl, if_pos rfl, neg_one_mul, neg_eq_iff_eq_neg, ← Int.cast_neg,
        natCast_div_eq_intCast_iff hden]
      split <;> simp_all [neg_eq_iff_eq_neg]
  | infinite negative => simp [integer?, rational?]
  | nan => simp [integer?, rational?]

end UnusedImports.Binary64
