import Mathlib.Data.List.Induction
import Mathlib.Data.List.Nodup
import Mathlib.Data.List.Perm.Subperm
import XRootDClient.Lib.BigEndian

/-!
Facts about all bytes: one case for each of them, or one for each bit where what is
claimed passes to exclusive ors. A table that holds every byte holds each of them once,
so that writing every index at its entry inverts it.
-/

set_option autoImplicit false

namespace XRootDClient.Lib.Octets

open BigEndian

theorem forall_byte {Holds : UInt8 → Prop} (each : ∀ index < 256, Holds (UInt8.ofNat index))
    (byte : UInt8) : Holds byte := by
  have known := each byte.toNat byte.toNat_lt
  rwa [UInt8.ofNat_toNat] at known

/-- What holds of nothing and of every bit, and passes to exclusive ors, holds of every byte. -/
theorem forall_bits {Holds : UInt8 → Prop} (zero : Holds 0)
    (bit : ∀ place < 8, Holds (UInt8.ofNat (2 ^ place)))
    (xor : ∀ left right, Holds left → Holds right → Holds (left ^^^ right)) (byte : UInt8) :
    Holds byte := by
  -- the highest bit apart from the rest
  have below : ∀ width ≤ 8, ∀ value < 2 ^ width, Holds (UInt8.ofNat value) := by
    intro width
    induction width with
    | zero =>
        intro _ value small
        rw [Nat.lt_one_iff.mp small]
        exact zero
    | succ width induction =>
        intro narrow value small
        by_cases low : value < 2 ^ width
        · exact induction (by omega) value low
        · have rest : value - 2 ^ width < 2 ^ width := by
            rw [Nat.pow_succ] at small
            omega
          have split : value = 2 ^ width ^^^ (value - 2 ^ width) := by
            have apart : 2 ^ width ^^^ (value - 2 ^ width) = 2 ^ width ||| (value - 2 ^ width) := by
              apply Nat.eq_of_testBit_eq
              intro index
              rw [Nat.testBit_xor, Nat.testBit_or, Nat.testBit_two_pow]
              by_cases here : width = index
              · rw [← here, Nat.testBit_lt_two_pow rest]
                simp
              · simp [here]
            have sum := Nat.two_pow_add_eq_or_of_lt rest 1
            rw [Nat.mul_one] at sum
            rw [apart, ← sum]
            omega
          rw [split, UInt8.ofNat_xor]
          exact xor _ _ (bit width (by omega)) (induction (by omega) _ rest)
  have known := below 8 (Nat.le_refl 8) byte.toNat byte.toNat_lt
  rwa [UInt8.ofNat_toNat] at known

def marks (bytes : Bytes) : Nat := bytes.foldr (fun byte marked => 2 ^ byte.toNat ||| marked) 0

theorem mem_marks (bytes : Bytes) (byte : UInt8) :
    (marks bytes).testBit byte.toNat = decide (byte ∈ bytes) := by
  induction bytes with
  | nil => simp [marks]
  | cons first rest induction =>
      rw [marks, List.foldr_cons, ← marks, Nat.testBit_or, induction, Nat.testBit_two_pow]
      simp [UInt8.toNat_inj, eq_comm]

theorem nodup_of_marks {table : Bytes} (size : table.length = 256)
    (all : marks table = 2 ^ 256 - 1) : table.Nodup := by
  have whole : List.range 256 ⊆ table.map UInt8.toNat := by
    intro value member
    have small := List.mem_range.mp member
    have there := mem_marks table (UInt8.ofNat value)
    rw [all, UInt8.toNat_ofNat_of_lt' small, Nat.testBit_two_pow_sub_one, decide_eq_true small] at there
    have held : UInt8.ofNat value ∈ table := of_decide_eq_true there.symm
    have named := List.mem_map_of_mem (f := UInt8.toNat) held
    rwa [UInt8.toNat_ofNat_of_lt' small] at named
  have same : (List.range 256).Perm (table.map UInt8.toNat) := by
    apply (List.nodup_range.subperm whole).perm_of_length_le
    rw [List.length_map, List.length_range, size]
  exact List.Nodup.of_map UInt8.toNat (same.nodup_iff.mp List.nodup_range)

def inverted (entries : List (UInt8 × Nat)) (table : Bytes) : Bytes :=
  entries.foldl (fun inverse entry => inverse.set entry.1.toNat (UInt8.ofNat entry.2)) table

theorem inverted_length (entries : List (UInt8 × Nat)) (table : Bytes) :
    (inverted entries table).length = table.length := by
  induction entries generalizing table with
  | nil => rfl
  | cons entry rest induction =>
      rw [inverted, List.foldl_cons, ← inverted, induction, List.length_set]

theorem inverted_get {entries : List (UInt8 × Nat)} {table : Bytes} {byte : UInt8} {index : Nat}
    (room : table.length = 256) (member : (byte, index) ∈ entries)
    (once : ∀ other, (byte, other) ∈ entries → other = index) :
    (inverted entries table).getD byte.toNat 0 = UInt8.ofNat index := by
  induction entries using List.reverseRecOn with
  | nil => cases member
  | append_singleton entries last induction =>
      have shape : inverted (entries ++ [last]) table =
          (inverted entries table).set last.1.toNat (UInt8.ofNat last.2) := by
        rw [inverted, List.foldl_append]
        rfl
      rw [shape]
      by_cases here : last.1 = byte
      · have place := once last.2 (by rw [← here]; simp)
        have inside : byte.toNat < (inverted entries table).length := by
          rw [inverted_length, room]
          exact byte.toNat_lt
        rw [here, place, List.getD_eq_getElem?_getD, List.getElem?_set_self inside]
        rfl
      · have earlier : (byte, index) ∈ entries := by
          rcases List.mem_append.mp member with before | same
          · exact before
          · rw [← List.mem_singleton.mp same] at here
            exact absurd rfl here
        have apart : last.1.toNat ≠ byte.toNat := fun same => here (UInt8.toNat_inj.mp same)
        rw [List.getD_eq_getElem?_getD, List.getElem?_set_ne apart, ← List.getD_eq_getElem?_getD]
        exact induction earlier fun other found => once other (List.mem_append_left _ found)

end XRootDClient.Lib.Octets
