import Mathlib.Data.Nat.Size
import XRootDClient.Lib.Struct

/-!
Natural numbers as doubles, and what a fraction of one comes to: the number and the product
are rounded to 53 bits and the result to an integer, ties to even each time. A fraction
below one never comes to more than the number it is taken of, as long as that is exact.
-/

set_option autoImplicit false

namespace XRootDClient.Lib.Doubles

open Struct

def rounded (value : Nat) : Nat :=
  if value < 2 ^ 53 then value
  else nearest value (value.size - 53) * 2 ^ (value.size - 53)

/-- A double above zero and below one: a significand over a power of two. -/
structure Fraction where
  significand : Nat
  exponent : Nat
  positive : 0 < significand
  precise : significand < 2 ^ 53
  below : significand < 2 ^ exponent

/-- `round(number * fraction)`. -/
def Fraction.of (fraction : Fraction) (number : Nat) : Nat :=
  nearest (rounded (rounded number * fraction.significand)) fraction.exponent

theorem nearest_le {value shift limit : Nat} (below : value ≤ limit * 2 ^ shift) :
    nearest value shift ≤ limit := by
  have positive : 0 < 2 ^ shift := Nat.two_pow_pos shift
  have parts := Nat.div_add_mod value (2 ^ shift)
  have least : value / 2 ^ shift ≤ limit := by
    rw [Nat.mul_comm] at below
    exact Nat.div_le_of_le_mul below
  rw [nearest]
  split
  case isTrue up =>
      by_contra past
      have same : value / 2 ^ shift = limit := by omega
      rw [same, Nat.mul_comm] at parts
      omega
  case isFalse => exact least

theorem rounded_le {value number shift : Nat} (exact_ : number ≤ 2 ^ 53)
    (below : value ≤ number * 2 ^ shift) : rounded value ≤ number * 2 ^ shift := by
  rw [rounded]
  by_cases small : value < 2 ^ 53
  · rw [if_pos small]
    exact below
  rw [if_neg small]
  have bits : 53 < value.size := Nat.lt_size.mpr (Nat.not_lt.mp small)
  obtain ⟨drop, size⟩ : ∃ drop, value.size = drop + 53 := ⟨value.size - 53, by omega⟩
  rw [size, Nat.add_sub_cancel]
  have high : value < 2 ^ (drop + 53) := size ▸ Nat.lt_size_self value
  have low : 2 ^ (drop + 52) ≤ value := Nat.lt_size.mp (by omega)
  by_cases room : 2 ^ (drop + 53) ≤ number * 2 ^ shift
  · have most : nearest value drop ≤ 2 ^ 53 := by
      apply nearest_le
      rw [← pow_add, Nat.add_comm]
      exact le_of_lt high
    calc nearest value drop * 2 ^ drop
        ≤ 2 ^ 53 * 2 ^ drop := Nat.mul_le_mul_right _ most
      _ = 2 ^ (drop + 53) := by rw [← pow_add, Nat.add_comm]
      _ ≤ number * 2 ^ shift := room
  · -- the bound has as many bits as the value, and no more than 53 of them count
    obtain ⟨whole, same⟩ : 2 ^ drop ∣ number * 2 ^ shift := by
      by_cases deep : drop ≤ shift
      · exact (pow_dvd_pow 2 deep).mul_left number
      · have most : number * 2 ^ shift ≤ 2 ^ (drop + 52) := by
          calc number * 2 ^ shift
              ≤ 2 ^ 53 * 2 ^ shift := Nat.mul_le_mul_right _ exact_
            _ = 2 ^ (53 + shift) := by rw [← pow_add]
            _ ≤ 2 ^ (drop + 52) := Nat.pow_le_pow_right (by decide) (by omega)
        have same : number * 2 ^ shift = 2 ^ (drop + 52) := le_antisymm most (low.trans below)
        rw [same]
        exact pow_dvd_pow 2 (Nat.le_add_right _ _)
    rw [same] at below ⊢
    rw [Nat.mul_comm (2 ^ drop)] at below ⊢
    exact Nat.mul_le_mul_right _ (nearest_le below)

theorem Fraction.of_le (fraction : Fraction) {number : Nat} (exact_ : number < 2 ^ 53) :
    fraction.of number ≤ number := by
  have same : rounded number = number := if_pos exact_
  rw [Fraction.of, same]
  apply nearest_le
  apply rounded_le (le_of_lt exact_)
  exact Nat.mul_le_mul_left _ (le_of_lt fraction.below)

end XRootDClient.Lib.Doubles
