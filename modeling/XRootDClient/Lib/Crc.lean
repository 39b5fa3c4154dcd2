import Mathlib.Logic.Function.Iterate
import XRootDClient.Lib.BigEndian

/-!
Cyclic redundancy checks over registers of any width, least significant bit first. One
bit is shifted out at a time, and the polynomial is added whenever a one comes out;
this is linear in exclusive or, so that a register's bytes can be shifted out apart
from each other.
-/

set_option autoImplicit false

namespace XRootDClient.Lib.Crc

open BigEndian

variable {width : Nat} (poly : BitVec width)

def shiftOut (register : BitVec width) : BitVec width :=
  if register.getLsbD 0 then (register >>> 1) ^^^ poly else register >>> 1

def shifts (count : Nat) (register : BitVec width) : BitVec width := (shiftOut poly)^[count] register

def byteWord (width : Nat) (byte : UInt8) : BitVec width := byte.toBitVec.setWidth width

def take (register : BitVec width) (byte : UInt8) : BitVec width :=
  shifts poly 8 (register ^^^ byteWord width byte)

/-- The check of some bytes, chained onto another: inverted before and after. -/
def crc (start : BitVec width) (data : Bytes) : BitVec width := ~~~ data.foldl (take poly) (~~~ start)

theorem crc_append (start : BitVec width) (first second : Bytes) :
    crc poly (crc poly start first) second = crc poly start (first ++ second) := by
  rw [crc, crc, crc, BitVec.not_not, List.foldl_append]

theorem shift_out_xor (left right : BitVec width) :
    shiftOut poly (left ^^^ right) = shiftOut poly left ^^^ shiftOut poly right := by
  rw [shiftOut, shiftOut, shiftOut, BitVec.getLsbD_xor, BitVec.ushiftRight_xor_distrib]
  cases left.getLsbD 0 with
  | false =>
      cases right.getLsbD 0 with
      | false => rfl
      | true => exact BitVec.xor_assoc _ _ _
  | true =>
      cases right.getLsbD 0 with
      | false =>
          simp only [Bool.xor_false, if_true, Bool.false_eq_true, if_false]
          rw [BitVec.xor_assoc, BitVec.xor_comm (right >>> 1), ← BitVec.xor_assoc]
      | true =>
          simp only [Bool.xor_self, Bool.false_eq_true, if_true, if_false]
          rw [BitVec.xor_comm (right >>> 1) poly, BitVec.xor_assoc, ← BitVec.xor_assoc poly,
            BitVec.xor_self, BitVec.zero_xor]

theorem shifts_xor (count : Nat) (left right : BitVec width) :
    shifts poly count (left ^^^ right) = shifts poly count left ^^^ shifts poly count right := by
  induction count generalizing left right with
  | zero => rfl
  | succ count induction =>
      rw [shifts, Function.iterate_succ_apply, shift_out_xor]
      exact induction _ _

theorem shifts_add (first second : Nat) (register : BitVec width) :
    shifts poly (first + second) register = shifts poly first (shifts poly second register) :=
  Function.iterate_add_apply _ _ _ _

theorem shifts_clear {count : Nat} {register : BitVec width}
    (clear : ∀ index, index < count → register.getLsbD index = false) :
    shifts poly count register = register >>> count := by
  induction count generalizing register with
  | zero => exact (BitVec.ushiftRight_zero _).symm
  | succ count induction =>
      have out : shiftOut poly register = register >>> 1 := by
        rw [shiftOut, if_neg (by rw [clear 0 (by omega)]; exact Bool.false_ne_true)]
      have rest : ∀ index, index < count → (register >>> 1).getLsbD index = false := by
        intro index below
        rw [BitVec.getLsbD_ushiftRight]
        exact clear _ (by omega)
      rw [shifts, Function.iterate_succ_apply, out, ← shifts, induction rest,
        ← BitVec.shiftRight_add, Nat.add_comm]

theorem shifts_up {count : Nat} {register : BitVec width}
    (room : ∀ index, width ≤ count + index → register.getLsbD index = false) :
    shifts poly count (register <<< count) = register := by
  rw [shifts_clear poly]
  · apply BitVec.eq_of_getLsbD_eq
    intro index inside
    rw [BitVec.getLsbD_ushiftRight, BitVec.getLsbD_shiftLeft]
    by_cases fits : count + index < width
    · simp [fits]
    · rw [room index (by omega)]
      simp [fits]
  · intro index below
    rw [BitVec.getLsbD_shiftLeft]
    simp [below]

theorem byte_word_clear {byte : UInt8} {index : Nat} (high : 8 ≤ index) :
    (byteWord width byte).getLsbD index = false := by
  rw [byteWord, BitVec.getLsbD_setWidth, BitVec.getLsbD_of_ge _ _ high, Bool.and_false]

theorem split_byte (register : BitVec width) :
    register = byteWord width (UInt8.ofBitVec (register.setWidth 8)) ^^^ ((register >>> 8) <<< 8) := by
  apply BitVec.eq_of_getLsbD_eq
  intro index inside
  rw [BitVec.getLsbD_xor, byteWord, BitVec.getLsbD_setWidth, BitVec.getLsbD_setWidth,
    BitVec.getLsbD_shiftLeft, BitVec.getLsbD_ushiftRight]
  by_cases low : index < 8
  · simp [inside, low]
  · simp [inside, low, Nat.add_sub_cancel' (Nat.le_of_not_lt low)]

theorem shifts_byte (register : BitVec width) :
    shifts poly 8 register =
      shifts poly 8 (byteWord width (UInt8.ofBitVec (register.setWidth 8))) ^^^ (register >>> 8) := by
  have up : shifts poly 8 ((register >>> 8) <<< 8) = register >>> 8 := by
    apply shifts_up
    intro index high
    rw [BitVec.getLsbD_ushiftRight]
    exact BitVec.getLsbD_of_ge _ _ (by omega)
  conv =>
    lhs
    rw [split_byte register, shifts_xor, up]

end XRootDClient.Lib.Crc
