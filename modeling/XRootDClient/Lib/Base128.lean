import Mathlib.Data.List.Chain
import XRootDClient.Lib.BigEndian

/-!
Numbers in groups of seven bits, highest first, every byte but the last with its high
bit set. A series of them is read in one pass; a series that ends inside no number and
pads none is what writing the numbers read from it gives, and no other is.
-/

set_option autoImplicit false

namespace XRootDClient.Lib.Base128

open BigEndian

/-- The groups in front of a number's last, with a mark on each. -/
def groups (number : Nat) : Bytes :=
  if number = 0 then []
  else groups (number / 128) ++ [UInt8.ofNat (number % 128 + 128)]
termination_by number

def encode (number : Nat) : Bytes := groups (number / 128) ++ [UInt8.ofNat (number % 128)]

/-- The numbers of a series, from what its first bytes have come to. -/
def values : Nat → Bytes → List Nat
  | _, [] => []
  | value, byte :: rest =>
      if byte.toNat < 128 then (value * 128 + byte.toNat) :: values 0 rest
      else values (value * 128 + byte.toNat % 128) rest

def Closed (bytes : Bytes) : Prop := ∀ byte ∈ bytes.getLast?, byte.toNat < 128

def Bare (bytes : Bytes) : Prop := bytes.IsChain fun before byte => byte = 0x80 → 128 ≤ before.toNat

instance (bytes : Bytes) : Decidable (Closed bytes) :=
  inferInstanceAs (Decidable (∀ byte ∈ bytes.getLast?, byte.toNat < 128))

instance (bytes : Bytes) : Decidable (Bare bytes) :=
  inferInstanceAs (Decidable (bytes.IsChain _))

theorem groups_succ {value byte : Nat} (some_ : value * 128 + byte ≠ 0) (low : byte < 128) :
    groups (value * 128 + byte) = groups value ++ [UInt8.ofNat (byte + 128)] := by
  have quotient : (value * 128 + byte) / 128 = value := by omega
  have remainder : (value * 128 + byte) % 128 = byte := by omega
  rw [groups, if_neg some_, quotient, remainder]

theorem encode_eq {value byte : Nat} (low : byte < 128) :
    encode (value * 128 + byte) = groups value ++ [UInt8.ofNat byte] := by
  have quotient : (value * 128 + byte) / 128 = value := by omega
  have remainder : (value * 128 + byte) % 128 = byte := by omega
  rw [encode, quotient, remainder]

theorem values_groups (number : Nat) (rest : Bytes) :
    values 0 (groups number ++ rest) = values number rest := by
  induction number using Nat.strongRecOn generalizing rest with
  | ind number induction =>
      rw [groups]
      split
      case isTrue zero => rw [zero, List.nil_append]
      case isFalse positive =>
          have byte : (UInt8.ofNat (number % 128 + 128)).toNat = number % 128 + 128 :=
            UInt8.toNat_ofNat_of_lt' (by show _ < 256; omega)
          have whole : number / 128 * 128 + (number % 128 + 128) % 128 = number := by omega
          rw [List.append_assoc, induction _ (by omega), List.singleton_append, values, byte,
            if_neg (by omega), whole]

theorem values_encode (number : Nat) (rest : Bytes) :
    values 0 (encode number ++ rest) = number :: values 0 rest := by
  have byte : (UInt8.ofNat (number % 128)).toNat = number % 128 :=
    UInt8.toNat_ofNat_of_lt' (by show _ < 256; omega)
  have whole : number / 128 * 128 + number % 128 = number := by omega
  rw [encode, List.append_assoc, values_groups, List.singleton_append, values, byte,
    if_pos (by omega), whole]

theorem values_encoded (numbers : List Nat) : values 0 (numbers.flatMap encode) = numbers := by
  induction numbers with
  | nil => rfl
  | cons number rest induction => rw [List.flatMap_cons, values_encode, induction]

theorem closed_tail {byte next : UInt8} {rest : Bytes} (closed : Closed (byte :: next :: rest)) :
    Closed (next :: rest) := by
  intro last member
  exact closed last (by rwa [List.getLast?_cons_cons])

/-- What is read of a closed and bare series is written as it stands, with what came
before. -/
theorem encoded_values {bytes : Bytes} {value : Nat} (closed : Closed bytes) (bare : Bare bytes)
    (first : value = 0 → bytes.head? ≠ some 0x80) (open_ : value ≠ 0 → bytes ≠ []) :
    (values value bytes).flatMap encode = groups value ++ bytes := by
  induction bytes generalizing value with
  | nil =>
      have zero : value = 0 := by
        by_contra some_
        exact open_ some_ rfl
      rw [zero, groups, if_pos rfl]
      rfl
  | cons byte rest induction =>
      have below := byte.toNat_lt
      rw [values]
      by_cases low : byte.toNat < 128
      · have later : (values 0 rest).flatMap encode = rest := by
          have after : rest.head? ≠ some 0x80 := by
            cases rest with
            | nil =>
                intro padded
                cases padded
            | cons next others =>
                intro padded
                have marked := (List.isChain_cons_cons.mp bare).1 (Option.some.inj padded)
                omega
          have ended : Closed rest := by
            cases rest with
            | nil =>
                intro last member
                cases member
            | cons next others => exact closed_tail closed
          have rebuilt := @induction 0 ended bare.tail (fun _ => after)
            (fun some_ => absurd rfl some_)
          rwa [groups, if_pos rfl, List.nil_append] at rebuilt
        rw [if_pos low, List.flatMap_cons, later, encode_eq low, UInt8.ofNat_toNat,
          List.append_assoc, List.singleton_append]
      · have reached : value * 128 + byte.toNat % 128 ≠ 0 := by
          intro zero
          have padded : byte = 0x80 := by
            rw [← UInt8.toNat_inj]
            show byte.toNat = 128
            omega
          exact first (by omega) (congrArg some padded)
        have more : rest ≠ [] := by
          intro last
          rw [last] at closed
          exact low (closed byte rfl)
        have ended : Closed rest := by
          obtain ⟨next, others, parted⟩ := List.exists_cons_of_ne_nil more
          rw [parted] at closed ⊢
          exact closed_tail closed
        have restored : UInt8.ofNat (byte.toNat % 128 + 128) = byte := by
          have same : byte.toNat % 128 + 128 = byte.toNat := by omega
          rw [same, UInt8.ofNat_toNat]
        rw [if_neg low, induction ended bare.tail (fun zero => absurd zero reached) (fun _ => more),
          groups_succ reached (by omega), restored, List.append_assoc, List.singleton_append]

theorem values_length (value : Nat) (bytes : Bytes) :
    (values value bytes).length = bytes.countP (·.toNat < 128) := by
  induction bytes generalizing value with
  | nil => rfl
  | cons byte rest induction =>
      rw [values]
      by_cases low : byte.toNat < 128
      · rw [if_pos low, List.length_cons, induction, List.countP_cons_of_pos (by simpa using low)]
      · rw [if_neg low, induction, List.countP_cons_of_neg (by simpa using low)]

theorem groups_marked (number : Nat) : ∀ byte ∈ groups number, 128 ≤ byte.toNat := by
  induction number using Nat.strongRecOn with
  | ind number induction =>
      rw [groups]
      split
      case isTrue => exact fun _ member => absurd member List.not_mem_nil
      case isFalse positive =>
          intro byte member
          rcases List.mem_append.mp member with front | last
          · exact induction _ (by omega) byte front
          · rw [List.mem_singleton.mp last, UInt8.toNat_ofNat_of_lt' (by show _ < 256; omega)]
            omega

theorem groups_head (number : Nat) : (groups number).head? ≠ some 0x80 := by
  induction number using Nat.strongRecOn with
  | ind number induction =>
      rw [groups]
      split
      case isTrue =>
          intro padded
          cases padded
      case isFalse positive =>
          by_cases single : number / 128 = 0
          · rw [single, groups, if_pos rfl, List.nil_append]
            intro padded
            have value := congrArg UInt8.toNat (Option.some.inj padded)
            rw [UInt8.toNat_ofNat_of_lt' (by show _ < 256; omega)] at value
            change number % 128 + 128 = 128 at value
            omega
          · have front : groups (number / 128) ≠ [] := by
              rw [groups, if_neg single]
              exact List.append_ne_nil_of_right_ne_nil _ (List.cons_ne_nil _ _)
            rw [List.head?_append_of_ne_nil _ front]
            exact induction _ (by omega)

theorem encode_some (number : Nat) : encode number ≠ [] :=
  List.append_ne_nil_of_right_ne_nil _ (List.cons_ne_nil _ _)

theorem encode_head (number : Nat) : (encode number).head? ≠ some 0x80 := by
  rw [encode]
  by_cases single : groups (number / 128) = []
  · rw [single, List.nil_append]
    intro padded
    have value := congrArg UInt8.toNat (Option.some.inj padded)
    rw [UInt8.toNat_ofNat_of_lt' (by show _ < 256; omega)] at value
    change number % 128 = 128 at value
    omega
  · rw [List.head?_append_of_ne_nil _ single]
    exact groups_head _

theorem encode_last (number : Nat) : (encode number).getLast? = some (UInt8.ofNat (number % 128)) := by
  rw [encode, List.getLast?_append, List.getLast?_singleton, Option.some_or]

theorem encode_bare (number : Nat) : Bare (encode number) := by
  have marked := groups_marked (number / 128)
  have front : Bare (groups (number / 128)) := by
    generalize groups (number / 128) = bytes at marked
    induction bytes with
    | nil => exact List.isChain_nil
    | cons byte rest induction =>
        refine List.isChain_cons.mpr ⟨fun _ _ _ => marked byte List.mem_cons_self, ?_⟩
        exact induction fun other member => marked other (List.mem_cons_of_mem _ member)
  refine List.isChain_append.mpr ⟨front, List.isChain_singleton _, ?_⟩
  intro before last _ _ _
  exact marked before (List.mem_of_mem_getLast? last)

theorem bare_encoded (numbers : List Nat) : Bare (numbers.flatMap encode) := by
  induction numbers with
  | nil => exact List.isChain_nil
  | cons number rest induction =>
      refine List.isChain_append.mpr ⟨encode_bare number, induction, ?_⟩
      intro before _ byte head padded
      cases rest with
      | nil => cases head
      | cons next others =>
          rw [← List.flatMap_def, List.flatMap_cons,
            List.head?_append_of_ne_nil _ (encode_some next)] at head
          exact absurd (padded ▸ head) (encode_head next)

theorem closed_encoded (numbers : List Nat) : Closed (numbers.flatMap encode) := by
  induction numbers with
  | nil =>
      intro byte member
      cases member
  | cons number rest induction =>
      intro byte member
      rw [List.flatMap_cons, List.getLast?_append] at member
      cases found : (rest.flatMap encode).getLast? with
      | none =>
          rw [found, encode_last, Option.none_or] at member
          rw [← Option.some.inj member, UInt8.toNat_ofNat_of_lt' (by show _ < 256; omega)]
          omega
      | some last =>
          rw [found, Option.some_or] at member
          exact induction byte (found.trans member)

end XRootDClient.Lib.Base128
