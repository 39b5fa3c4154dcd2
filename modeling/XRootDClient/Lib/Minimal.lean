import Mathlib.Data.Nat.Size
import XRootDClient.Lib.BigEndian

/-!
Natural numbers in as many bytes as they need, highest first: the bytes whose first is
not zero, and no other, and never more than any other bytes of the same number.
-/

set_option autoImplicit false

namespace XRootDClient.Lib.Minimal

open BigEndian

/-- `(n.bit_length() + 7) // 8`. -/
def width (number : Nat) : Nat := (number.size + 7) / 8

/-- `n.to_bytes((n.bit_length() + 7) // 8, "big")`. -/
def toBytes (number : Nat) : Bytes := encode (width number) number

theorem width_le {number count : Nat} : width number ≤ count ↔ number < 256 ^ count := by
  have power : 256 ^ count = 2 ^ (8 * count) := by
    rw [pow_mul]
    rfl
  rw [power, ← Nat.size_le, width]
  omega

@[simp] theorem to_bytes_length (number : Nat) : (toBytes number).length = width number :=
  encode_length _ _

theorem decode_to_bytes (number : Nat) : decode (toBytes number) = number :=
  decode_encode (width_le.mp le_rfl)

theorem to_bytes_least (bytes : Bytes) : (toBytes (decode bytes)).length ≤ bytes.length := by
  rw [to_bytes_length]
  exact width_le.mpr (decode_lt bytes)

theorem to_bytes_fewer (rest : Bytes) :
    (toBytes (decode (0 :: rest))).length < (0 :: rest : Bytes).length := by
  have same : decode (0 :: rest) = decode rest := by
    rw [decode]
    exact (congrArg (· + decode rest) (Nat.zero_mul _)).trans (Nat.zero_add _)
  rw [same, List.length_cons]
  exact Nat.lt_succ_of_le (to_bytes_least rest)

theorem to_bytes_decode {first : UInt8} {rest : Bytes} (some_ : first ≠ 0) :
    toBytes (decode (first :: rest)) = first :: rest := by
  have positive : 1 ≤ first.toNat := by
    rw [Nat.one_le_iff_ne_zero]
    exact fun zero => some_ (UInt8.toNat_inj.mp zero)
  have large : 256 ^ rest.length ≤ decode (first :: rest) := by
    rw [decode]
    exact (Nat.le_mul_of_pos_left _ positive).trans (Nat.le_add_right _ _)
  have whole : ¬ width (decode (first :: rest)) ≤ rest.length :=
    fun few => Nat.not_lt.mpr large (width_le.mp few)
  have same : (toBytes (decode (first :: rest))).length = (first :: rest).length := by
    have least := to_bytes_least (first :: rest)
    rw [to_bytes_length] at least ⊢
    rw [List.length_cons] at least ⊢
    omega
  exact decode_injective same (decode_to_bytes _)

end XRootDClient.Lib.Minimal
