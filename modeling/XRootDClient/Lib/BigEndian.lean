import Mathlib.Data.Nat.Basic
import Mathlib.Tactic.Ring

/-!
Big-endian integers over byte lists: the unsigned reading of any length, the
fixed-width writing, and the two's-complement reading of a fixed width. The
write is total and reduces modulo the width, so the round trip carries the
range as its hypothesis.
-/

set_option autoImplicit false

namespace XRootDClient.Lib.BigEndian

abbrev Bytes := List UInt8

def decode : Bytes → Nat
  | [] => 0
  | byte :: rest => byte.toNat * 256 ^ rest.length + decode rest

def encode : Nat → Nat → Bytes
  | 0, _ => []
  | width + 1, value => UInt8.ofNat (value / 256 ^ width) :: encode width value

def signed (width value : Nat) : Int :=
  if value < 256 ^ width / 2 then value else (value : Int) - 256 ^ width

/-- The unsigned image of a signed value, as two's complement stores it. -/
def unsigned (width : Nat) (value : Int) : Nat :=
  (value % (256 ^ width : Int)).toNat

@[simp] theorem encode_length (width value : Nat) : (encode width value).length = width := by
  induction width with
  | zero => rfl
  | succ width induction => simp [encode, induction]

theorem decode_lt (bytes : Bytes) : decode bytes < 256 ^ bytes.length := by
  induction bytes with
  | nil => simp [decode]
  | cons byte rest induction =>
      have bounded : byte.toNat < 256 := byte.toNat_lt
      have top : byte.toNat * 256 ^ rest.length ≤ 255 * 256 ^ rest.length :=
        Nat.mul_le_mul_right _ (by omega)
      simp only [decode, List.length_cons, pow_succ]
      omega

theorem decode_encode_mod (width value : Nat) :
    decode (encode width value) = value % 256 ^ width := by
  induction width with
  | zero => simp [encode, decode, Nat.mod_one]
  | succ width induction =>
      have top : (UInt8.ofNat (value / 256 ^ width)).toNat = value / 256 ^ width % 256 := by simp
      have split : value % (256 ^ width * 256) =
          value % 256 ^ width + 256 ^ width * (value / 256 ^ width % 256) := Nat.mod_mul
      simp only [encode, decode, encode_length, induction, top]
      rw [pow_succ, split, Nat.mul_comm, Nat.add_comm]

theorem decode_encode {width value : Nat} (bounded : value < 256 ^ width) :
    decode (encode width value) = value := by
  rw [decode_encode_mod, Nat.mod_eq_of_lt bounded]

theorem decode_append (front back : Bytes) :
    decode (front ++ back) = decode front * 256 ^ back.length + decode back := by
  induction front with
  | nil => simp [decode]
  | cons byte rest induction =>
      simp only [List.cons_append, decode, induction, List.length_append, pow_add]
      ring

theorem decode_zeros (count : Nat) : decode (List.replicate count 0) = 0 := by
  induction count with
  | zero => rfl
  | succ count induction => simp [List.replicate_succ, decode, induction]

theorem decode_injective {left right : Bytes} (lengths : left.length = right.length)
    (same : decode left = decode right) : left = right := by
  induction left generalizing right with
  | nil => exact (List.length_eq_zero_iff.mp lengths.symm).symm
  | cons byte rest induction =>
      cases right with
      | nil => cases lengths
      | cons other more =>
          have short : rest.length = more.length := Nat.succ.inj lengths
          have low := decode_lt rest
          have high := decode_lt more
          rw [decode, decode, ← short] at same
          rw [← short] at high
          have top : byte.toNat = other.toNat := by
            have quotient := congrArg (· / 256 ^ rest.length) same
            have pos : 0 < 256 ^ rest.length := Nat.pow_pos (by decide)
            simpa [Nat.mul_comm, Nat.mul_add_div pos, Nat.div_eq_of_lt low,
              Nat.div_eq_of_lt high] using quotient
          rw [top] at same
          rw [UInt8.toNat_inj.mp top, induction short (by omega)]

theorem signed_unsigned {width : Nat} {value : Int} (low : -(256 ^ width / 2 : Nat) ≤ value)
    (high : value < (256 ^ width / 2 : Nat)) : signed width (unsigned width value) = value := by
  have positive : 0 < 256 ^ width := Nat.pow_pos (by decide)
  have cast : ((256 : Int) ^ width) = ((256 ^ width : Nat) : Int) := by push_cast; rfl
  unfold signed unsigned
  rw [cast]
  generalize 256 ^ width = span at positive low high
  have below : value % span < span := Int.emod_lt_of_pos _ (by omega)
  have above : 0 ≤ value % span := Int.emod_nonneg _ (by omega)
  by_cases negative : value < 0
  · have wrapped : value % span = value + span := by
      rw [← Int.add_emod_right]
      exact Int.emod_eq_of_lt (by omega) (by omega)
    rw [if_neg (by omega)]
    omega
  · have plain : value % span = value := Int.emod_eq_of_lt (by omega) (by omega)
    rw [if_pos (by omega)]
    omega

end XRootDClient.Lib.BigEndian
