import Mathlib.Data.ZMod.Basic
import Mathlib.Data.ZMod.Units
import Mathlib.Data.Int.GCD

/-!
Powers of integers modulo an integer, as a language with one operation for them has it:
a negative exponent takes an inverse, and a result has the sign of the modulus. Two
powers of one base are raised to each other's exponents with one result.
-/

set_option autoImplicit false

namespace XRootDClient.Lib.Powers

inductive Failure
  | zeroModulus
  | notInvertible
  deriving DecidableEq

def inverse (base : Int) (size : Nat) : Option Int :=
  if base.gcd size = 1 then some (base.gcdA size) else none

def signedResidue (residue : Int) (modulus : Int) : Int :=
  if modulus < 0 ∧ residue ≠ 0 then residue + modulus else residue

/-- `pow(base, exponent, modulus)`. -/
def pow (base exponent modulus : Int) : Except Failure Int :=
  if modulus = 0 then .error .zeroModulus
  else if modulus.natAbs = 1 then .ok 0
  else
    match if exponent < 0 then inverse base modulus.natAbs else some base with
    | none => .error .notInvertible
    | some base =>
        .ok (signedResidue (base ^ exponent.natAbs % modulus.natAbs) modulus)

variable {modulus : Int}

def represent (modulus : Int) (residue : ZMod modulus.natAbs) : Int :=
  signedResidue residue.cast modulus

theorem represent_cast (some_ : modulus ≠ 0) (residue : ZMod modulus.natAbs) :
    ((represent modulus residue : Int) : ZMod modulus.natAbs) = residue := by
  have size : NeZero modulus.natAbs := ⟨Int.natAbs_ne_zero.mpr some_⟩
  have none_ : ((modulus : Int) : ZMod modulus.natAbs) = 0 := by
    rw [ZMod.intCast_zmod_eq_zero_iff_dvd]
    exact Int.natAbs_dvd.mpr dvd_rfl
  rw [represent, signedResidue]
  split
  · rw [Int.cast_add, none_, add_zero, ZMod.intCast_zmod_cast]
  · rw [ZMod.intCast_zmod_cast]

theorem represent_power (some_ : modulus ≠ 0) (base : Int) (count : Nat) :
    signedResidue (base ^ count % modulus.natAbs) modulus =
      represent modulus ((base : ZMod modulus.natAbs) ^ count) := by
  have size : NeZero modulus.natAbs := ⟨Int.natAbs_ne_zero.mpr some_⟩
  rw [represent, ← Int.cast_pow, ZMod.coe_intCast]

theorem pow_of_nat (some_ : modulus ≠ 0) (large : modulus.natAbs ≠ 1) (base : Int) {exponent : Int}
    (positive : 0 ≤ exponent) :
    pow base exponent modulus =
      .ok (represent modulus ((base : ZMod modulus.natAbs) ^ exponent.natAbs)) := by
  rw [pow, if_neg some_, if_neg large, if_neg (Int.not_lt.mpr positive)]
  dsimp only
  rw [represent_power some_]

theorem inverse_unit {base inverted : Int} {size : Nat} (found : inverse base size = some inverted) :
    (base : ZMod size) * (inverted : ZMod size) = 1 := by
  rw [inverse] at found
  split at found
  case isFalse => cases found
  case isTrue coprime =>
      cases found
      have bezout := Int.gcd_eq_gcd_ab base size
      rw [coprime] at bezout
      have cast := congrArg (Int.cast (R := ZMod size)) bezout
      push_cast at cast
      rw [ZMod.natCast_self, zero_mul, add_zero] at cast
      exact cast.symm

theorem inverse_of_unit {base : Int} {size : Nat} {unit : (ZMod size)ˣ}
    (same : (base : ZMod size) = unit) :
    ∃ inverted, inverse base size = some inverted ∧ (inverted : ZMod size) = ↑unit⁻¹ := by
  have coprime : base.gcd size = 1 := by
    have product : ((base * ((↑unit⁻¹ : ZMod size).cast : Int) : Int) : ZMod size) =
        ((1 : Int) : ZMod size) := by
      rw [Int.cast_mul, ZMod.intCast_zmod_cast, same, Int.cast_one]
      exact unit.mul_inv
    obtain ⟨factor, whole⟩ := (ZMod.intCast_eq_intCast_iff_dvd_sub _ _ _).mp product
    exact Int.isCoprime_iff_gcd_eq_one.mp ⟨((↑unit⁻¹ : ZMod size).cast : Int), factor, by
      rw [mul_comm, mul_comm factor]
      omega⟩
  have found : inverse base size = some (base.gcdA size) := if_pos coprime
  refine ⟨_, found, ?_⟩
  have product := inverse_unit found
  rw [same] at product
  exact Units.eq_inv_of_mul_eq_one_left product

theorem pow_of_unit (some_ : modulus ≠ 0) (large : modulus.natAbs ≠ 1) {base : Int}
    {unit : (ZMod modulus.natAbs)ˣ} (same : (base : ZMod modulus.natAbs) = unit) (exponent : Int) :
    pow base exponent modulus = .ok (represent modulus ↑(unit ^ exponent)) := by
  by_cases positive : 0 ≤ exponent
  · obtain ⟨count, rfl⟩ := Int.eq_ofNat_of_zero_le positive
    rw [pow_of_nat some_ large base positive, same, Int.natAbs_natCast,
      zpow_natCast, Units.val_pow_eq_pow_val]
  · obtain ⟨inverted, found, residue⟩ := inverse_of_unit same
    have back : exponent = -(exponent.natAbs : Int) := by omega
    rw [pow, if_neg some_, if_neg large, if_pos (by omega), found]
    dsimp only
    rw [represent_power some_, residue, ← Units.val_pow_eq_pow_val]
    congr 3
    conv_rhs => rw [back, zpow_neg, zpow_natCast]
    exact inv_pow _ _

theorem unit_of_pow (some_ : modulus ≠ 0) (large : modulus.natAbs ≠ 1) {base exponent value : Int}
    (negative : exponent < 0) (raised : pow base exponent modulus = .ok value) :
    ∃ unit : (ZMod modulus.natAbs)ˣ, (base : ZMod modulus.natAbs) = unit := by
  rw [pow, if_neg some_, if_neg large, if_pos negative] at raised
  cases found : inverse base modulus.natAbs with
  | none => rw [found] at raised; cases raised
  | some inverted =>
      have product := inverse_unit found
      exact ⟨⟨base, inverted, product, (mul_comm _ _).trans product⟩, rfl⟩

theorem pow_exchanged {base first second one other : Int} (here : pow base first modulus = .ok one)
    (there : pow base second modulus = .ok other) :
    pow other first modulus = pow one second modulus := by
  by_cases some_ : modulus = 0
  · rw [pow, if_pos some_] at here
    cases here
  by_cases small : modulus.natAbs = 1
  · rw [pow, pow, if_neg some_, if_neg some_, if_pos small, if_pos small]
  by_cases negative : first < 0 ∨ second < 0
  · -- one of the exponents takes an inverse, and all are powers of a unit
    obtain ⟨unit, same⟩ : ∃ unit : (ZMod modulus.natAbs)ˣ, (base : ZMod modulus.natAbs) = unit := by
      rcases negative with negative | negative
      · exact unit_of_pow some_ small negative here
      · exact unit_of_pow some_ small negative there
    rw [pow_of_unit some_ small same] at here there
    have residue : (one : ZMod modulus.natAbs) = ↑(unit ^ first) := by
      rw [← Except.ok.inj here, represent_cast some_]
    have residue_ : (other : ZMod modulus.natAbs) = ↑(unit ^ second) := by
      rw [← Except.ok.inj there, represent_cast some_]
    rw [pow_of_unit some_ small residue, pow_of_unit some_ small residue_, ← zpow_mul, ← zpow_mul,
      mul_comm]
  · obtain ⟨low, low_⟩ := not_or.mp negative
    have positive := Int.not_lt.mp low
    have positive_ := Int.not_lt.mp low_
    rw [pow_of_nat some_ small _ positive] at here
    rw [pow_of_nat some_ small _ positive_] at there
    rw [pow_of_nat some_ small _ positive, pow_of_nat some_ small _ positive_,
      ← Except.ok.inj here, ← Except.ok.inj there, represent_cast some_, represent_cast some_,
      ← pow_mul, ← pow_mul, mul_comm]

end XRootDClient.Lib.Powers
