import Mathlib.Tactic.Linarith
import XRootDClient.Lib.BigEndian

/-!
Whole numbers as two's complement in any number of bytes, highest first. The first two
bytes alone decide whether fewer bytes would have been enough.
-/

set_option autoImplicit false

namespace XRootDClient.Lib.TwosComplement

open BigEndian

/-- `int.from_bytes(..., "big", signed=True)`. -/
def read (bytes : Bytes) : Int := signed bytes.length (decode bytes)

/-- A first byte that only repeats the sign of the second. -/
def Padded : Bytes → Prop
  | first :: second :: _ => (first = 0 ∧ second.toNat < 128) ∨ (first = 0xFF ∧ 128 ≤ second.toNat)
  | _ => False

instance : (bytes : Bytes) → Decidable (Padded bytes)
  | [] => inferInstanceAs (Decidable False)
  | [_] => inferInstanceAs (Decidable False)
  | _ :: _ :: _ => inferInstanceAs (Decidable (_ ∨ _))

def Minimal (bytes : Bytes) : Prop :=
  ∀ other, other ≠ [] → read other = read bytes → bytes.length ≤ other.length

def signedByte (byte : UInt8) : Int := if byte.toNat < 128 then byte.toNat else byte.toNat - 256

theorem signed_byte_range (byte : UInt8) : -128 ≤ signedByte byte ∧ signedByte byte < 128 := by
  have below := byte.toNat_lt
  rw [signedByte]
  split <;> omega

theorem read_cons (byte : UInt8) (rest : Bytes) :
    read (byte :: rest) = signedByte byte * 256 ^ rest.length + decode rest := by
  have below := byte.toNat_lt
  have low := decode_lt rest
  have half : 256 ^ (rest.length + 1) / 2 = 128 * 256 ^ rest.length := by omega
  have cast : ((256 : Int) ^ rest.length) = ((256 ^ rest.length : Nat) : Int) := by push_cast; rfl
  rw [read, signed, List.length_cons, decode, signedByte, half, pow_succ, cast]
  generalize 256 ^ rest.length = span at low
  by_cases small : byte.toNat < 128
  · have under : byte.toNat * span + decode rest < 128 * span := by nlinarith
    rw [if_pos under, if_pos small]
    push_cast
    ring
  · have over_ : ¬ byte.toNat * span + decode rest < 128 * span := by nlinarith
    rw [if_neg over_, if_neg small]
    push_cast
    ring

theorem read_range (byte : UInt8) (rest : Bytes) :
    -128 * (256 : Int) ^ rest.length ≤ read (byte :: rest) ∧
      read (byte :: rest) < 128 * 256 ^ rest.length := by
  obtain ⟨least, most⟩ := signed_byte_range byte
  have low : (decode rest : Int) < 256 ^ rest.length := by exact_mod_cast decode_lt rest
  rw [read_cons]
  generalize (256 : Int) ^ rest.length = span at low
  generalize signedByte byte = sign at least most
  have positive : 0 ≤ span := by omega
  constructor <;> nlinarith

theorem read_padded {first second : UInt8} {rest : Bytes}
    (padded : Padded (first :: second :: rest)) :
    read (first :: second :: rest) = read (second :: rest) := by
  rw [read_cons, read_cons, decode, List.length_cons, pow_succ]
  push_cast
  rcases padded with ⟨zero, low⟩ | ⟨ones, high⟩
  · have sign : signedByte second = second.toNat := if_pos low
    have none_ : signedByte first = 0 := by rw [zero]; rfl
    rw [sign, none_]
    ring
  · have sign : signedByte second = second.toNat - 256 := if_neg (Nat.not_lt.mpr high)
    have minus : signedByte first = -1 := by rw [ones]; rfl
    rw [sign, minus]
    ring

/-- A number behind a first byte that says something is out of reach of fewer bytes. -/
theorem read_far {first second : UInt8} {rest : Bytes}
    (bare : ¬ Padded (first :: second :: rest)) :
    128 * (256 : Int) ^ rest.length ≤ read (first :: second :: rest) ∨
      read (first :: second :: rest) < -128 * 256 ^ rest.length := by
  have low : (decode rest : Int) < 256 ^ rest.length := by exact_mod_cast decode_lt rest
  have whole : read (first :: second :: rest) =
      signedByte first * (256 ^ rest.length * 256) +
        (second.toNat * 256 ^ rest.length + decode rest) := by
    rw [read_cons, decode, List.length_cons, pow_succ]
    push_cast
    rfl
  have byte := second.toNat_lt
  have nothing : signedByte first = 0 → first = 0 := by
    intro zero
    have below := first.toNat_lt
    rw [signedByte] at zero
    split at zero
    · exact UInt8.toNat_inj.mp (by show first.toNat = 0; omega)
    · omega
  have ones : signedByte first = -1 → first = 0xFF := by
    intro minus
    have below := first.toNat_lt
    rw [signedByte] at minus
    split at minus
    · omega
    · exact UInt8.toNat_inj.mp (by show first.toNat = 255; omega)
  rw [whole]
  generalize (256 : Int) ^ rest.length = span at low
  generalize decode rest = tail at low
  generalize signedByte first = sign at nothing ones
  have positive : 0 < span := by omega
  rcases lt_trichotomy sign 0 with negative | zero | above
  · right
    by_cases last : sign = -1
    · have small : second.toNat < 128 := by
        by_contra large
        exact bare (Or.inr ⟨ones last, Nat.not_lt.mp large⟩)
      have bound : (second.toNat : Int) * span ≤ 127 * span :=
        mul_le_mul_of_nonneg_right (by omega) (le_of_lt positive)
      rw [last]
      omega
    · have bound : (second.toNat : Int) * span ≤ 255 * span :=
        mul_le_mul_of_nonneg_right (by omega) (le_of_lt positive)
      have top : sign * (span * 256) ≤ -2 * (span * 256) :=
        mul_le_mul_of_nonneg_right (by omega) (by omega)
      omega
  · left
    have large : 128 ≤ second.toNat := by
      by_contra small
      exact bare (Or.inl ⟨nothing zero, Nat.not_le.mp small⟩)
    have bound : 128 * span ≤ (second.toNat : Int) * span :=
      mul_le_mul_of_nonneg_right (by omega) (le_of_lt positive)
    rw [zero]
    omega
  · left
    have bound : 0 ≤ (second.toNat : Int) * span :=
      mul_nonneg (Int.natCast_nonneg _) (le_of_lt positive)
    have top : 1 * (span * 256) ≤ sign * (span * 256) :=
      mul_le_mul_of_nonneg_right (by omega) (by omega)
    omega

theorem minimal_iff {bytes : Bytes} (some_ : bytes ≠ []) : Minimal bytes ↔ ¬ Padded bytes := by
  constructor
  · intro minimal padded
    match bytes, padded with
    | first :: second :: rest, padded =>
        have fewer := minimal (second :: rest) (List.cons_ne_nil _ _) (read_padded padded).symm
        exact Nat.not_succ_le_self _ fewer
  · intro bare other filled same
    by_contra fewer
    match bytes, other, some_, filled with
    | [first], byte :: others, _, _ => exact fewer (Nat.succ_le_succ (Nat.zero_le _))
    | first :: second :: rest, byte :: others, _, _ =>
        have short : others.length ≤ rest.length := by
          simp only [List.length_cons] at fewer
          omega
        have grows : (256 : Int) ^ others.length ≤ 256 ^ rest.length :=
          pow_le_pow_right₀ (by decide) short
        obtain ⟨least, most⟩ := read_range byte others
        have far := read_far bare
        omega

end XRootDClient.Lib.TwosComplement
