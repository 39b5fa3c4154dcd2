import XRootDClient.Crypto.Pages
import XRootDClient.Lib.Crc

/-!
# Checksums in chunks

The Castagnoli checksum eight bytes at a time and the two checksums of 64 bits, chained
onto a running value, and the `Checksum` that a stream is folded into. A register is
linear in exclusive or: the eight tables shift the bytes of a register and the bytes
behind it out apart from each other, and so come to what one bit at a time does.
-/

set_option autoImplicit false

namespace XRootDClient.Crypto

open Lib Lib.BigEndian

/-- `_crc32c_py`. The running value is cut to the register. -/
def crc32cPy (data : Bytes) (crc : Int) : Nat :=
  (register (UInt32.ofInt crc ^^^ MASK) data ^^^ MASK).toNat

def shift64 (reflectedPoly crc : UInt64) : UInt64 :=
  if crc &&& 1 = 1 then (crc >>> 1) ^^^ reflectedPoly else crc >>> 1

/-- `_table`. -/
def table64 (reflectedPoly : UInt64) (byte : UInt8) : UInt64 :=
  let next_ := shift64 reflectedPoly
  next_ (next_ (next_ (next_ (next_ (next_ (next_ (next_ byte.toUInt64)))))))

def take64 (table : UInt8 → UInt64) (c : UInt64) (byte : UInt8) : UInt64 :=
  table (c ^^^ byte.toUInt64).toUInt8 ^^^ (c >>> 8)

def fold (table : UInt8 → UInt64) (data : Bytes) (crc : Int) : Nat :=
  (~~~ data.foldl (take64 table) (~~~ UInt64.ofInt crc)).toNat

def XZ : UInt8 → UInt64 := table64 0xC96C5795D7870F42

def NVME : UInt8 → UInt64 := table64 0x9A6C9329AC4BC9B5

def crc64 (data : Bytes) (crc : Int) : Nat := fold XZ data crc

def crc64nvme (data : Bytes) (crc : Int) : Nat := fold NVME data crc

/-- `Checksum`: a running value and the step that folds a chunk into it. -/
structure Checksum where
  step : Bytes → Int → Nat
  value : Nat
  width : Nat

def Checksum.update (checksum : Checksum) (data : Bytes) : Checksum :=
  { checksum with value := checksum.step data checksum.value }

inductive Native
  | crc32c
  | crc64
  | crc64nvme
  deriving DecidableEq

def Native.step : Native → Bytes → Int → Nat
  | .crc32c => crc32cPy
  | .crc64 => Crypto.crc64
  | .crc64nvme => Crypto.crc64nvme

def new (native : Native) : Checksum where
  step := native.step
  value := 0
  width := if native = .crc32c then 8 else 16

def Checksum.updated (checksum : Checksum) (chunks : List Bytes) : Checksum :=
  chunks.foldl Checksum.update checksum

def poly : BitVec 32 := POLY.toBitVec

theorem low_bit (c : UInt32) : c &&& 1 = 1 ↔ c.toBitVec.getLsbD 0 = true := by
  rw [← UInt32.toBitVec_inj, UInt32.toBitVec_and]
  have one := @BitVec.and_one_eq_setWidth_ofBool_getLsbD 32 c.toBitVec
  cases bit : c.toBitVec.getLsbD 0 with
  | false =>
      rw [bit] at one
      refine iff_of_false (fun same => ?_) Bool.false_ne_true
      have none := one.symm.trans same
      exact absurd none (by decide)
  | true =>
      rw [bit] at one
      exact iff_of_true (one.trans (by decide)) rfl

theorem shift_word (c : UInt32) : (shift c).toBitVec = Crc.shiftOut poly c.toBitVec := by
  rw [shift, Crc.shiftOut]
  by_cases bit : c &&& 1 = 1
  · rw [if_pos bit, if_pos ((low_bit c).mp bit)]
    rfl
  · rw [if_neg bit, if_neg (mt (low_bit c).mpr bit)]
    rfl

theorem table_zero_word (byte : UInt8) :
    (table 0 byte).toBitVec = Crc.shifts poly 8 (Crc.byteWord 32 byte) := by
  rw [table]
  simp only [shift_word]
  rfl

theorem table_word (number : Nat) (byte : UInt8) :
    (table number byte).toBitVec = Crc.shifts poly (8 * number + 8) (Crc.byteWord 32 byte) := by
  induction number with
  | zero => exact table_zero_word byte
  | succ number induction =>
      rw [table, UInt32.toBitVec_xor, table_zero_word, UInt32.toBitVec_shiftRight, BitVec.xor_comm,
        Nat.mul_succ, Nat.add_comm (8 * number + 8), Crc.shifts_add, ← induction,
        Crc.shifts_byte poly (table number byte).toBitVec]
      rfl

theorem byte_taken (c : UInt32) (byte : UInt8) :
    (table 0 (c ^^^ byte.toUInt32).toUInt8 ^^^ (c >>> 8)).toBitVec =
      Crc.take poly c.toBitVec byte := by
  have none : Crc.byteWord 32 byte >>> 8 = 0 := by
    apply BitVec.eq_of_getLsbD_eq
    intro index _
    rw [BitVec.getLsbD_ushiftRight, Crc.byte_word_clear (by omega)]
    simp
  rw [Crc.take, Crc.shifts_byte, UInt32.toBitVec_xor, table_zero_word, BitVec.ushiftRight_xor_distrib,
    none]
  simp only [BitVec.ofNat_eq_ofNat, BitVec.xor_zero]
  rfl

theorem take_shifts {count : Nat} (room : count + 8 ≤ 32) (word : BitVec 32) (byte : UInt8) :
    Crc.take poly (Crc.shifts poly count word) byte =
      Crc.shifts poly (8 + count) (word ^^^ (Crc.byteWord 32 byte <<< count)) := by
  have up : Crc.shifts poly count (Crc.byteWord 32 byte <<< count) = Crc.byteWord 32 byte := by
    apply Crc.shifts_up
    intro index high
    exact Crc.byte_word_clear (by omega)
  rw [Crc.take, Crc.shifts_add, Crc.shifts_xor poly count, up]

theorem word_taken (c : BitVec 32) (b0 b1 b2 b3 : UInt8) :
    [b0, b1, b2, b3].foldl (Crc.take poly) c = Crc.shifts poly 32 (c ^^^ Crc.byteWord 32 b0 ^^^
      (Crc.byteWord 32 b1 <<< 8) ^^^ (Crc.byteWord 32 b2 <<< 16) ^^^
      (Crc.byteWord 32 b3 <<< 24)) := by
  have first : Crc.take poly c b0 = Crc.shifts poly 8 (c ^^^ Crc.byteWord 32 b0) := rfl
  rw [List.foldl_cons, List.foldl_cons, List.foldl_cons, List.foldl_cons, List.foldl_nil, first,
    take_shifts (by decide), take_shifts (by decide), take_shifts (by decide)]

theorem shifts_split (count : Nat) (word : BitVec 32) :
    Crc.shifts poly (count + 8) word =
      Crc.shifts poly (count + 8) (Crc.byteWord 32 (UInt8.ofBitVec (word.setWidth 8))) ^^^
        Crc.shifts poly count (word >>> 8) := by
  rw [Crc.shifts_add, Crc.shifts_byte, Crc.shifts_xor, ← Crc.shifts_add]

theorem word_split (word : UInt32) :
    Crc.shifts poly 64 word.toBitVec = (table 7 word.toUInt8).toBitVec ^^^
      (table 6 (word >>> 8).toUInt8).toBitVec ^^^ (table 5 (word >>> 16).toUInt8).toBitVec ^^^
      (table 4 (word >>> 24).toUInt8).toBitVec := by
  have gone : word.toBitVec >>> 8 >>> 8 >>> 8 >>> 8 = 0 := by
    rw [← BitVec.shiftRight_add, ← BitVec.shiftRight_add, ← BitVec.shiftRight_add]
    exact BitVec.ushiftRight_eq_zero (Nat.le_refl _)
  have zero : Crc.shifts poly 32 0 = 0 := by
    have same := Crc.shifts_xor poly 32 0 0
    rwa [BitVec.xor_self, BitVec.xor_self] at same
  have second : (word >>> 8).toUInt8 = UInt8.ofBitVec ((word.toBitVec >>> 8).setWidth 8) := rfl
  have third : (word >>> 16).toUInt8 = UInt8.ofBitVec ((word.toBitVec >>> 8 >>> 8).setWidth 8) := by
    rw [← BitVec.shiftRight_add]
    rfl
  have fourth : (word >>> 24).toUInt8 =
      UInt8.ofBitVec ((word.toBitVec >>> 8 >>> 8 >>> 8).setWidth 8) := by
    rw [← BitVec.shiftRight_add, ← BitVec.shiftRight_add]
    rfl
  rw [table_word, table_word, table_word, table_word, second, third, fourth, shifts_split 56,
    shifts_split 48 (word.toBitVec >>> 8), shifts_split 40 (word.toBitVec >>> 8 >>> 8),
    shifts_split 32 (word.toBitVec >>> 8 >>> 8 >>> 8), gone, zero, ← BitVec.xor_assoc,
    ← BitVec.xor_assoc, ← BitVec.xor_assoc]
  simp only [BitVec.ofNat_eq_ofNat, BitVec.xor_zero]
  rfl

theorem loaded (b0 b1 b2 b3 : UInt8) :
    (b0.toUInt32 ||| (b1.toUInt32 <<< 8) ||| (b2.toUInt32 <<< 16) ||| (b3.toUInt32 <<< 24)).toBitVec =
      Crc.byteWord 32 b0 ^^^ (Crc.byteWord 32 b1 <<< 8) ^^^ (Crc.byteWord 32 b2 <<< 16) ^^^
        (Crc.byteWord 32 b3 <<< 24) := by
  have same : (b0.toUInt32 ||| (b1.toUInt32 <<< 8) ||| (b2.toUInt32 <<< 16) |||
      (b3.toUInt32 <<< 24)).toBitVec = Crc.byteWord 32 b0 ||| (Crc.byteWord 32 b1 <<< 8) |||
        (Crc.byteWord 32 b2 <<< 16) ||| (Crc.byteWord 32 b3 <<< 24) := rfl
  rw [same]
  apply BitVec.eq_of_getLsbD_eq
  intro index inside
  simp only [BitVec.getLsbD_or, BitVec.getLsbD_xor, BitVec.getLsbD_shiftLeft]
  -- at most one of the four has a bit here
  by_cases one : index < 8
  · simp [one, (by omega : index < 16), (by omega : index < 24)]
  · by_cases two : index < 16
    · simp [one, two, (by omega : index < 24), Crc.byte_word_clear (by omega : 8 ≤ index)]
    · by_cases three : index < 24
      · simp [one, two, three, Crc.byte_word_clear (by omega : 8 ≤ index),
          Crc.byte_word_clear (by omega : 8 ≤ index - 8)]
      · simp [one, two, three, Crc.byte_word_clear (by omega : 8 ≤ index),
          Crc.byte_word_clear (by omega : 8 ≤ index - 8),
          Crc.byte_word_clear (by omega : 8 ≤ index - 16)]

theorem eight_taken (c : UInt32) (b0 b1 b2 b3 b4 b5 b6 b7 : UInt8) :
    let word := c ^^^ (b0.toUInt32 ||| (b1.toUInt32 <<< 8) ||| (b2.toUInt32 <<< 16) |||
      (b3.toUInt32 <<< 24))
    (table 7 word.toUInt8 ^^^ table 6 (word >>> 8).toUInt8 ^^^ table 5 (word >>> 16).toUInt8 ^^^
      table 4 (word >>> 24).toUInt8 ^^^ table 3 b4 ^^^ table 2 b5 ^^^ table 1 b6 ^^^
      table 0 b7).toBitVec = [b0, b1, b2, b3, b4, b5, b6, b7].foldl (Crc.take poly) c.toBitVec := by
  intro word
  have first : [b0, b1, b2, b3].foldl (Crc.take poly) c.toBitVec =
      Crc.shifts poly 32 word.toBitVec := by
    rw [word_taken, UInt32.toBitVec_xor, loaded, ← BitVec.xor_assoc, ← BitVec.xor_assoc,
      ← BitVec.xor_assoc]
  have second : [b4, b5, b6, b7].foldl (Crc.take poly) (Crc.shifts poly 32 word.toBitVec) =
      Crc.shifts poly 64 word.toBitVec ^^^ (table 3 b4).toBitVec ^^^ (table 2 b5).toBitVec ^^^
        (table 1 b6).toBitVec ^^^ (table 0 b7).toBitVec := by
    rw [table_word, table_word, table_word, table_word]
    simp only [List.foldl_cons, List.foldl_nil, Crc.take, Crc.shifts_xor, ← Crc.shifts_add]
  have both : [b0, b1, b2, b3, b4, b5, b6, b7].foldl (Crc.take poly) c.toBitVec =
      [b4, b5, b6, b7].foldl (Crc.take poly) ([b0, b1, b2, b3].foldl (Crc.take poly) c.toBitVec) :=
    rfl
  rw [both, first, second, word_split]
  simp only [UInt32.toBitVec_xor]

theorem register_taken (c : UInt32) (data : Bytes) :
    (register c data).toBitVec = data.foldl (Crc.take poly) c.toBitVec := by
  fun_induction register c data with
  | case1 c b0 b1 b2 b3 b4 b5 b6 b7 rest word induction =>
      rw [induction, eight_taken c b0 b1 b2 b3 b4 b5 b6 b7]
      rfl
  | case2 c byte rest short induction =>
      rw [induction, byte_taken, List.foldl_cons]
  | case3 c => rfl

theorem of_int_word (crc : Int) : (UInt32.ofInt crc).toBitVec = BitVec.ofInt 32 crc := by
  apply BitVec.eq_of_toNat_eq
  rw [BitVec.toNat_ofInt]
  have below : (crc % 2 ^ 32).toNat < 2 ^ 32 := by omega
  exact Nat.mod_eq_of_lt below

theorem xor_mask (c : UInt32) : (c ^^^ MASK).toBitVec = ~~~ c.toBitVec := by
  rw [UInt32.toBitVec_xor, MASK]
  exact BitVec.xor_allOnes

theorem crc32c_py_bits (data : Bytes) (crc : Int) :
    crc32cPy data crc = (Crc.crc poly (BitVec.ofInt 32 crc) data).toNat := by
  have same : (register (UInt32.ofInt crc ^^^ MASK) data ^^^ MASK).toBitVec =
      Crc.crc poly (BitVec.ofInt 32 crc) data := by
    rw [xor_mask, register_taken, xor_mask, of_int_word, Crc.crc]
  rw [crc32cPy, ← same]
  rfl

theorem crc32c_py_fresh (data : Bytes) : crc32cPy data 0 = (crc32c data).toNat := rfl

theorem crc32c_py_append (first second : Bytes) (crc : Int) :
    crc32cPy second (crc32cPy first crc) = crc32cPy (first ++ second) crc := by
  rw [crc32c_py_bits, crc32c_py_bits, crc32c_py_bits, BitVec.ofInt_natCast, BitVec.ofNat_toNat,
    BitVec.setWidth_eq, Crc.crc_append]

theorem of_int_value (c : UInt64) : UInt64.ofInt c.toNat = c := by
  have below := c.toNat_lt
  have same : ((c.toNat : Int) % 2 ^ 64).toNat = c.toNat := by omega
  rw [UInt64.ofInt, same, UInt64.ofNat_toNat]

theorem fold_append (table : UInt8 → UInt64) (first second : Bytes) (crc : Int) :
    fold table second (fold table first crc) = fold table (first ++ second) crc := by
  rw [fold, fold, fold, of_int_value, UInt64.not_not, List.foldl_append]

theorem Native.step_append (native : Native) (first second : Bytes) (crc : Int) :
    native.step second (native.step first crc) = native.step (first ++ second) crc := by
  cases native with
  | crc32c => exact crc32c_py_append first second crc
  | crc64 => exact fold_append XZ first second crc
  | crc64nvme => exact fold_append NVME first second crc

theorem Native.step_nil (native : Native) : native.step [] 0 = 0 := by
  cases native
  all_goals rfl

theorem Checksum.updated_value (checksum : Checksum) (seen : Bytes) (seed : Int)
    (chains : ∀ first second, checksum.step second (checksum.step first seed) =
      checksum.step (first ++ second) seed)
    (value : checksum.value = checksum.step seen seed) (chunks : List Bytes) :
    (checksum.updated chunks).value = checksum.step (seen ++ chunks.flatten) seed := by
  induction chunks generalizing checksum seen with
  | nil => rw [List.flatten_nil, List.append_nil, ← value, updated, List.foldl_nil]
  | cons chunk rest induction =>
      have next_ : (checksum.update chunk).value = checksum.step (seen ++ chunk) seed := by
        rw [update, value, chains]
      rw [List.flatten_cons, ← List.append_assoc]
      exact induction (checksum.update chunk) (seen ++ chunk) chains next_

/-- The checksum eight bytes at a time is the checksum bit by bit, and however a stream
is cut into chunks, its checksum is the same. -/
theorem checksums_whole :
    (∀ data crc, crc32cPy data crc = (Crc.crc 0x82F63B78 (BitVec.ofInt 32 crc) data).toNat) ∧
    (∀ (native : Native) first second crc,
      native.step second (native.step first crc) = native.step (first ++ second) crc) ∧
    ∀ (native : Native) chunks,
      ((new native).updated chunks).value = native.step chunks.flatten 0 := by
  refine ⟨crc32c_py_bits, Native.step_append, fun native chunks => ?_⟩
  exact (new native).updated_value [] 0 (fun first second => native.step_append first second 0)
    native.step_nil.symm chunks

end XRootDClient.Crypto
