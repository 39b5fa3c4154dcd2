import Mathlib.Data.List.TakeWhile
import XRootDClient.Lib.BigEndian

/-!
# Chunked transfer coding

How a body is cut into chunks behind their lengths in hexadecimal, and how a receiver
reads it: to the first chunk of length zero and the trailers behind it. What is left over
does not belong to the body.
-/

set_option autoImplicit false

namespace XRootDClient.Lib.Chunked

open BigEndian

def crlf : Bytes := [13, 10]

/-- `b"%x" % number`. -/
def hex (number : Nat) : Bytes := (Nat.toDigits 16 number).map fun char => UInt8.ofNat char.toNat

def chunk (payload : Bytes) : Bytes := hex payload.length ++ crlf ++ payload ++ crlf

/-- `b"0\r\n\r\n"`. -/
def ending : Bytes := [48, 13, 10, 13, 10]

def line : Bytes → Option (Bytes × Bytes)
  | [] => none
  | byte :: rest =>
      if byte = 13 ∧ rest.head? = some 10 then some ([], rest.tail)
      else (line rest).map fun (front, rest) => (byte :: front, rest)

def hexValue (byte : UInt8) : Option Nat :=
  let code := byte.toNat
  if 48 ≤ code ∧ code ≤ 57 then some (code - 48)
  else if 65 ≤ code ∧ code ≤ 70 then some (code - 55)
  else if 97 ≤ code ∧ code ≤ 102 then some (code - 87)
  else none

def digits (value : Nat) : Bytes → Option Nat
  | [] => some value
  | byte :: rest => (hexValue byte).bind fun next => digits (value * 16 + next) rest

/-- The length in front of a chunk; an extension behind a semicolon is passed over. -/
def size (head : Bytes) : Option Nat :=
  let number := head.takeWhile (· ≠ 59)
  if number = [] then none else digits 0 number

def trailers : Nat → Bytes → Option Bytes
  | 0, _ => none
  | fuel + 1, bytes =>
      match line bytes with
      | none => none
      | some (front, rest) => if front = [] then some rest else trailers fuel rest

def decodeFrom : Nat → Bytes → Option (Bytes × Bytes)
  | 0, _ => none
  | fuel + 1, bytes => do
      let (head, rest) ← line bytes
      let length ← size head
      if length = 0 then
        let rest ← trailers fuel rest
        return ([], rest)
      else if (rest.drop length).take 2 = crlf then
        let (body, left) ← decodeFrom fuel (rest.drop (length + 2))
        return (rest.take length ++ body, left)
      else none

def decode (bytes : Bytes) : Option (Bytes × Bytes) := decodeFrom (bytes.length + 1) bytes

theorem line_append {front : Bytes} (bare : 13 ∉ front) (rest : Bytes) :
    line (front ++ 13 :: 10 :: rest) = some (front, rest) := by
  induction front with
  | nil => simp [line]
  | cons byte more induction =>
      rw [List.mem_cons, not_or] at bare
      rw [List.cons_append, line, if_neg fun same => bare.1 same.1.symm, induction bare.2]
      rfl

theorem hex_value_digit : ∀ value < 16,
    hexValue (UInt8.ofNat (Nat.digitChar value).toNat) = some value ∧
      UInt8.ofNat (Nat.digitChar value).toNat ≠ 13 ∧
      UInt8.ofNat (Nat.digitChar value).toNat ≠ 59 := by decide

theorem hex_step (number : Nat) : hex number =
    if number < 16 then [UInt8.ofNat (Nat.digitChar number).toNat]
    else hex (number / 16) ++ [UInt8.ofNat (Nat.digitChar (number % 16)).toNat] := by
  rw [hex, Nat.toDigits_eq_if (by decide)]
  split_ifs
  · rfl
  · rw [List.map_append]
    rfl

theorem hex_plain (number : Nat) : ∀ byte ∈ hex number, byte ≠ 13 ∧ byte ≠ 59 := by
  induction number using Nat.strongRecOn with
  | _ number induction =>
      rw [hex_step]
      split_ifs with small
      · intro byte member
        rw [List.mem_singleton.mp member]
        exact (hex_value_digit number small).2
      · intro byte member
        rcases List.mem_append.mp member with early | last
        · exact induction (number / 16) (by omega) byte early
        · rw [List.mem_singleton.mp last]
          exact (hex_value_digit _ (Nat.mod_lt _ (by decide))).2

theorem hex_some (number : Nat) : hex number ≠ [] := by
  rw [hex, Ne, List.map_eq_nil_iff]
  exact Nat.toDigits_ne_nil

theorem digits_concat (text : Bytes) (start : Nat) (byte : UInt8) :
    digits start (text ++ [byte]) = (digits start text).bind fun value =>
      (hexValue byte).map fun next => value * 16 + next := by
  induction text generalizing start with
  | nil =>
      rw [List.nil_append, digits, digits]
      cases hexValue byte <;> rfl
  | cons first rest induction =>
      rw [List.cons_append, digits, digits]
      cases hexValue first with
      | none => rfl
      | some next => exact induction _

theorem digits_hex (number : Nat) : digits 0 (hex number) = some number := by
  induction number using Nat.strongRecOn with
  | _ number induction =>
      rw [hex_step]
      split_ifs with small
      · rw [digits, (hex_value_digit number small).1]
        simp [digits]
      · rw [digits_concat, induction (number / 16) (by omega),
          (hex_value_digit _ (Nat.mod_lt _ (by decide))).1]
        simp only [Option.bind_some, Option.map_some]
        congr 1
        omega

theorem size_hex (number : Nat) : size (hex number) = some number := by
  have whole : (hex number).takeWhile (· ≠ 59) = hex number := by
    rw [List.takeWhile_eq_self_iff]
    exact fun byte member => decide_eq_true (hex_plain number byte member).2
  rw [size, whole, if_neg (hex_some number), digits_hex]

theorem line_hex (number : Nat) (rest : Bytes) :
    line (hex number ++ crlf ++ rest) = some (hex number, rest) := by
  rw [List.append_assoc]
  exact line_append (fun member => (hex_plain number 13 member).1 rfl) rest

theorem chunk_nil : chunk [] = ending := by decide

theorem decode_from_ending (fuel : Nat) (rest : Bytes) :
    decodeFrom (fuel + 2) (ending ++ rest) = some ([], rest) := by
  have front : ending ++ rest = hex 0 ++ crlf ++ (13 :: 10 :: rest) := rfl
  rw [front, decodeFrom, line_hex]
  simp only [Option.bind_eq_bind, Option.bind_some, size_hex, if_true]
  rw [trailers]
  rfl

theorem decode_from_chunk (fuel : Nat) {payload : Bytes} (some : payload ≠ []) (rest : Bytes) :
    decodeFrom (fuel + 1) (chunk payload ++ rest) =
      (decodeFrom fuel rest).map fun (body, left) => (payload ++ body, left) := by
  have front : chunk payload ++ rest =
      hex payload.length ++ crlf ++ (payload ++ (crlf ++ rest)) := by
    simp only [chunk, List.append_assoc]
  rw [front, decodeFrom, line_hex]
  simp only [Option.bind_eq_bind, Option.bind_some, size_hex]
  have behind : (payload ++ (crlf ++ rest)).drop (payload.length + 2) = rest := by
    rw [← List.drop_drop, List.drop_left]
    rfl
  have closed : (crlf ++ rest).take 2 = crlf := rfl
  rw [if_neg (by simpa using some), List.drop_left, if_pos closed, behind, List.take_left]
  cases decodeFrom fuel rest <;> rfl

theorem decode_from_chunks (chunks : List Bytes) (some : ∀ payload ∈ chunks, payload ≠ [])
    {fuel : Nat} (enough : chunks.length + 2 ≤ fuel) (rest : Bytes) :
    decodeFrom fuel (chunks.flatMap chunk ++ ending ++ rest) = .some (chunks.flatten, rest) := by
  induction chunks generalizing fuel with
  | nil =>
      obtain ⟨fuel, rfl⟩ := Nat.exists_eq_add_of_le' enough
      exact decode_from_ending fuel rest
  | cons payload more induction =>
      rw [List.length_cons] at enough
      obtain ⟨fuel, rfl⟩ : ∃ less, fuel = less + 1 := ⟨fuel - 1, by omega⟩
      rw [List.forall_mem_cons] at some
      rw [List.flatMap_cons, List.append_assoc, List.append_assoc, decode_from_chunk fuel some.1,
        ← List.append_assoc, induction some.2 (by omega)]
      rfl

theorem flat_map_chunk_length (chunks : List Bytes) :
    chunks.length ≤ (chunks.flatMap chunk).length := by
  induction chunks with
  | nil => exact le_rfl
  | cons payload more induction =>
      rw [List.flatMap_cons, List.length_append, List.length_cons]
      have long : 1 ≤ (chunk payload).length := by simp [chunk, crlf]; omega
      omega

theorem decode_chunks {chunks : List Bytes} (some : ∀ payload ∈ chunks, payload ≠ [])
    (rest : Bytes) :
    decode (chunks.flatMap chunk ++ ending ++ rest) = .some (chunks.flatten, rest) := by
  apply decode_from_chunks chunks some
  have long := flat_map_chunk_length chunks
  have last : ending.length = 5 := rfl
  rw [List.length_append, List.length_append]
  omega

/-- A body is read to its end, and nothing follows, exactly when no chunk is empty. -/
theorem decode_whole_iff (chunks : List Bytes) :
    decode (chunks.flatMap chunk ++ ending) = .some (chunks.flatten, []) ↔
      ∀ payload ∈ chunks, payload ≠ [] := by
  constructor
  · intro whole
    by_contra empty
    push Not at empty
    obtain ⟨payload, member, rfl⟩ := empty
    obtain ⟨early, later, shape, none⟩ := List.eq_append_cons_of_mem member
    have front : chunks.flatMap chunk ++ ending =
        early.flatMap chunk ++ ending ++ (later.flatMap chunk ++ ending) := by
      rw [shape, List.flatMap_append, List.flatMap_cons, chunk_nil]
      simp only [List.append_assoc]
    rw [front, decode_chunks fun payload inside same => none (same ▸ inside)] at whole
    have left := congrArg (fun found => found.map Prod.snd) whole
    simp [ending] at left
  · intro some
    simpa using decode_chunks some []

end XRootDClient.Lib.Chunked
