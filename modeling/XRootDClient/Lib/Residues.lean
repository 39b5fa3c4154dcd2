import Mathlib.FieldTheory.Finite.Basic
import Mathlib.Data.Nat.Size

/-!
Powers modulo a prime and modulo the product of two: exponents count modulo one less
than the prime as long as they are positive, the value of a multiple of the prime
included, and two residues are put together again from the inverse of one modulus.
-/

set_option autoImplicit false

namespace XRootDClient.Lib.Residues

/-- Positive exponents that agree modulo one less than a prime give the same powers. -/
theorem pow_congr {prime : Nat} (isPrime : prime.Prime) {first second : Nat} (some_ : 0 < first)
    (more : 0 < second) (same : first ≡ second [MOD prime - 1]) (value : Nat) :
    value ^ first ≡ value ^ second [MOD prime] := by
  by_cases divides : prime ∣ value
  · have gone : value ≡ 0 [MOD prime] := (Nat.modEq_zero_iff_dvd).mpr divides
    calc value ^ first ≡ 0 ^ first [MOD prime] := gone.pow first
      _ = 0 ^ second := by rw [Nat.zero_pow some_, Nat.zero_pow more]
      _ ≡ value ^ second [MOD prime] := (gone.pow second).symm
  · have coprime : value.Coprime prime := ((isPrime.coprime_iff_not_dvd).mpr divides).symm
    have unit : value ^ (prime - 1) ≡ 1 [MOD prime] := by
      have totient := Nat.ModEq.pow_totient coprime
      rwa [Nat.totient_prime isPrime] at totient
    have reduced : ∀ exponent, value ^ exponent ≡ value ^ (exponent % (prime - 1)) [MOD prime] := by
      intro exponent
      calc value ^ exponent
          = (value ^ (prime - 1)) ^ (exponent / (prime - 1)) * value ^ (exponent % (prime - 1)) := by
            rw [← pow_mul, ← pow_add, Nat.div_add_mod]
        _ ≡ 1 ^ (exponent / (prime - 1)) * value ^ (exponent % (prime - 1)) [MOD prime] :=
            (unit.pow _).mul_right _
        _ = value ^ (exponent % (prime - 1)) := by rw [one_pow, one_mul]
    have residues : first % (prime - 1) = second % (prime - 1) := same
    exact (reduced first).trans (residues ▸ (reduced second).symm)

theorem pow_one_congr {prime : Nat} (isPrime : prime.Prime) {exponent : Nat} (some_ : 0 < exponent)
    (one : exponent ≡ 1 [MOD prime - 1]) (value : Nat) : value ^ exponent ≡ value [MOD prime] := by
  have same := pow_congr isPrime some_ Nat.one_pos one value
  rwa [pow_one] at same

theorem recombined {first second inverse one other value : Nat} (positive : 0 < first)
    (inverts : second * inverse ≡ 1 [MOD first]) (coprime : first.Coprime second)
    (here : one ≡ value [MOD first]) (there : other ≡ value [MOD second]) :
    other + second * (((inverse : Int) * (one - other)) % first).toNat ≡
      value [MOD first * second] := by
  rw [← Nat.modEq_and_modEq_iff_modEq_mul coprime]
  constructor
  · rw [← Int.natCast_modEq_iff]
    have kept : 0 ≤ ((inverse : Int) * (one - other)) % first :=
      Int.emod_nonneg _ (by omega)
    have residue : ((inverse : Int) * (one - other)) % first ≡ inverse * (one - other) [ZMOD first] :=
      Int.mod_modEq _ _
    have unit : (second : Int) * inverse ≡ 1 [ZMOD first] := by
      have cast := Int.natCast_modEq_iff.mpr inverts
      rwa [Nat.cast_mul, Nat.cast_one] at cast
    push_cast
    rw [Int.toNat_of_nonneg kept]
    calc (other : Int) + second * (((inverse : Int) * (one - other)) % first)
        ≡ other + second * (inverse * (one - other)) [ZMOD first] :=
          (residue.mul_left _).add_left _
      _ = other + second * inverse * (one - other) := by rw [mul_assoc]
      _ ≡ other + 1 * (one - other) [ZMOD first] := (unit.mul_right _).add_left _
      _ = one := by ring
      _ ≡ value [ZMOD first] := Int.natCast_modEq_iff.mpr here
  · calc other + second * (((inverse : Int) * (one - other)) % first).toNat
        ≡ other + 0 [MOD second] :=
          Nat.ModEq.add_left _ ((Nat.modEq_zero_iff_dvd).mpr (Nat.dvd_mul_right _ _))
      _ ≡ value [MOD second] := there

end XRootDClient.Lib.Residues
