import Mathlib.Data.List.Basic
import XRootDClient.Lib.Extent

/-!
Sequences of a dictionary coder: literals, then a repeat of what was put out a
distance ago. A repeat may overlap what it is producing. Sequences that describe a
content, each repeat agreeing with the place it points at, expand to that content.
-/

set_option autoImplicit false

namespace XRootDClient.Lib.Lempel

open Extent

variable {Item : Type*}

structure Sequence (Item : Type*) where
  literals : List Item
  offset : Nat
  length : Nat
  deriving DecidableEq

def repeated (offset : Nat) : Nat → List Item → List Item
  | 0, out => out
  | count + 1, out => repeated offset count (out ++ out[out.length - offset]?.toList)

def expand : List (Sequence Item) → List Item → List Item
  | [], out => out
  | sequence :: rest, out =>
      expand rest (repeated sequence.offset sequence.length (out ++ sequence.literals))

/-- Where the content is, once the sequences are put out from a place on. -/
def reach : Nat → List (Sequence Item) → Nat
  | start, [] => start
  | start, sequence :: rest =>
      reach (start + sequence.literals.length + sequence.length) rest

def turns : Nat → List (Sequence Item) → List Nat
  | _, [] => []
  | start, sequence :: rest =>
      (start + sequence.literals.length) ::
        turns (start + sequence.literals.length + sequence.length) rest

/-- One sequence says what the content is from a place on. -/
structure Sequence.Describes (data : List Item) (start : Nat) (sequence : Sequence Item) : Prop where
  literal : sequence.literals = fetch data start sequence.literals.length
  back : 0 < sequence.offset
  within : sequence.offset ≤ start + sequence.literals.length
  inside : start + sequence.literals.length + sequence.length ≤ data.length
  agrees : ∀ index < sequence.length,
    data[start + sequence.literals.length - sequence.offset + index]? =
      data[start + sequence.literals.length + index]?

def Describe (data : List Item) : Nat → List (Sequence Item) → Prop
  | _, [] => True
  | start, sequence :: rest =>
      sequence.Describes data start ∧
        Describe data (start + sequence.literals.length + sequence.length) rest

def Points : Nat → List (Sequence Item) → Prop
  | _, [] => True
  | size, sequence :: rest =>
      0 < sequence.offset ∧ sequence.offset ≤ size + sequence.literals.length ∧
        Points (size + sequence.literals.length + sequence.length) rest

theorem Describe.points {data : List Item} {start : Nat} {sequences : List (Sequence Item)}
    (describe : Describe data start sequences) : Points start sequences := by
  induction sequences generalizing start with
  | nil => trivial
  | cons sequence rest induction =>
      exact ⟨describe.1.back, describe.1.within, induction describe.2⟩

theorem repeated_apart {offset count : Nat} {out : List Item} (apart : count ≤ offset)
    (within : offset ≤ out.length) :
    repeated offset count out = out ++ fetch out (out.length - offset) count := by
  induction count generalizing out with
  | zero => simp [repeated, fetch]
  | succ count induction =>
      have inside : out.length - offset < out.length := by omega
      have item : out[out.length - offset]?.toList = [out[out.length - offset]] := by
        rw [List.getElem?_eq_getElem inside]
        rfl
      have shifted : (out ++ [out[out.length - offset]]).length - offset =
          out.length - offset + 1 := by
        rw [List.length_append, List.length_singleton]
        omega
      rw [repeated, item, induction (by omega) (by simp; omega), shifted, List.append_assoc]
      congr 1
      rw [fetch, fetch, List.drop_append_of_le_length (by omega),
        List.take_append_of_le_length (by rw [List.length_drop]; omega),
        List.drop_eq_getElem_cons inside, List.take_succ_cons]
      rfl

theorem repeated_length {offset count : Nat} {out : List Item} (back : 0 < offset)
    (within : offset ≤ out.length) : (repeated offset count out).length = out.length + count := by
  induction count generalizing out with
  | zero => rfl
  | succ count induction =>
      have inside : out.length - offset < out.length := by omega
      have grown : (out ++ out[out.length - offset]?.toList).length = out.length + 1 := by
        rw [List.getElem?_eq_getElem inside, List.length_append]
        rfl
      rw [repeated, induction (by omega), grown]
      omega

theorem repeated_take {data : List Item} {offset count start : Nat} (back : 0 < offset)
    (within : offset ≤ start) (inside : start + count ≤ data.length)
    (agrees : ∀ index < count, data[start - offset + index]? = data[start + index]?) :
    repeated offset count (data.take start) = data.take (start + count) := by
  induction count generalizing start with
  | zero => rfl
  | succ count induction =>
      have size : (data.take start).length = start := by
        rw [List.length_take]
        omega
      have item : (data.take start)[start - offset]? = data[start]? := by
        rw [List.getElem?_take_of_lt (by omega)]
        exact agrees 0 (by omega)
      have rest : ∀ index < count,
          data[start + 1 - offset + index]? = data[start + 1 + index]? := by
        intro index below
        have here := agrees (index + 1) (by omega)
        rw [show start + 1 - offset + index = start - offset + (index + 1) by omega, here]
        congr 1
        omega
      rw [repeated, size, item, ← List.take_add_one,
        induction (by omega) (by omega) rest, show start + 1 + count = start + (count + 1) by omega]

theorem reach_le {data : List Item} {start : Nat} {sequences : List (Sequence Item)}
    (describe : Describe data start sequences) (inside : start ≤ data.length) :
    reach start sequences ≤ data.length := by
  induction sequences generalizing start with
  | nil => exact inside
  | cons sequence rest induction => exact induction describe.2 describe.1.inside

theorem expand_describe {data : List Item} {start : Nat} {sequences : List (Sequence Item)}
    (describe : Describe data start sequences) :
    expand sequences (data.take start) = data.take (reach start sequences) := by
  induction sequences generalizing start with
  | nil => rfl
  | cons sequence rest induction =>
      obtain ⟨here, further⟩ := describe
      have front : data.take start ++ sequence.literals =
          data.take (start + sequence.literals.length) := by
        rw [List.take_add]
        exact congrArg _ here.literal
      rw [expand, front, repeated_take here.back here.within here.inside here.agrees]
      exact induction further

theorem expand_all {data : List Item} {sequences : List (Sequence Item)}
    (describe : Describe data 0 sequences) :
    expand sequences [] ++ data.drop (reach 0 sequences) = data := by
  have expanded := expand_describe describe
  rw [List.take_zero] at expanded
  rw [expanded, List.take_append_drop]

end XRootDClient.Lib.Lempel
