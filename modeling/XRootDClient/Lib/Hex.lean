import XRootDClient.Lib.BigEndian
import XRootDClient.Lib.Octets

/-!
Bytes written with two digits each, and whole numbers as `int(..., 16)` reads them of
bytes: blanks around them, a sign, a prefix and single underscores between digits. The
digits of some bytes are read as the number the bytes are.
-/

set_option autoImplicit false

namespace XRootDClient.Lib.Hex

open BigEndian Octets

def digit (value : Nat) : UInt8 := UInt8.ofNat (if value < 10 then 0x30 + value else 0x37 + value)

/-- `binascii.hexlify(data).upper()`. -/
def hexlified (data : Bytes) : Bytes :=
  data.flatMap fun byte => [digit (byte.toNat / 16), digit (byte.toNat % 16)]

def isSpace (byte : UInt8) : Bool := byte = 0x20 || (0x09 ≤ byte && byte ≤ 0x0D)

def strip (bytes : Bytes) : Bytes := ((bytes.dropWhile isSpace).reverse.dropWhile isSpace).reverse

def digitValue (byte : UInt8) : Option Nat :=
  if 0x30 ≤ byte ∧ byte ≤ 0x39 then some (byte.toNat - 0x30)
  else if 0x41 ≤ byte ∧ byte ≤ 0x46 then some (byte.toNat - 0x37)
  else if 0x61 ≤ byte ∧ byte ≤ 0x66 then some (byte.toNat - 0x57)
  else none

def digits (value : Nat) : Bytes → Option Nat
  | [] => some value
  | byte :: rest =>
      match digitValue byte with
      | some next => digits (value * 16 + next) rest
      | none =>
          if byte = 0x5F then
            match rest with
            | [] => none
            | byte :: rest => (digitValue byte).elim none fun next => digits (value * 16 + next) rest
          else none

def unsigned : Bytes → Option Nat
  | [] => none
  | byte :: rest => (digitValue byte).elim none fun first => digits first rest

/-- The digits behind `0x`, one underscore with it, or all of them. -/
def prefixed (bytes : Bytes) : Option Nat :=
  match bytes with
  | zero :: mark :: rest =>
      if zero = 0x30 ∧ (mark = 0x78 ∨ mark = 0x58) then
        unsigned (if rest.head? = some 0x5F then rest.drop 1 else rest)
      else unsigned bytes
  | _ => unsigned bytes

/-- `int(bytes, 16)`; nothing where it raises `ValueError`. -/
def int (bytes : Bytes) : Option Int :=
  match strip bytes with
  | [] => none
  | sign :: rest =>
      if sign = 0x2D then (prefixed rest).map fun value : Nat => -(value : Int)
      else if sign = 0x2B then (prefixed rest).map Int.ofNat
      else (prefixed (sign :: rest)).map Int.ofNat

theorem digit_plain : ∀ value < 16, digitValue (digit value) = some value ∧
    isSpace (digit value) = false ∧ digit value ≠ 0x2D ∧ digit value ≠ 0x2B ∧
    digit value ≠ 0x78 ∧ digit value ≠ 0x58 := by
  decide

theorem hexlified_digits (data : Bytes) : ∀ byte ∈ hexlified data, ∃ value < 16, byte = digit value := by
  intro byte member
  obtain ⟨whole, -, two⟩ := List.mem_flatMap.mp member
  have below := whole.toNat_lt
  rcases List.mem_cons.mp two with rfl | two
  · exact ⟨_, by omega, rfl⟩
  · exact ⟨_, by omega, List.mem_singleton.mp two⟩

theorem digits_cons {value next : Nat} {byte : UInt8} (read : digitValue byte = some next)
    (rest : Bytes) : digits value (byte :: rest) = digits (value * 16 + next) rest := by
  conv_lhs => rw [digits.eq_def]
  dsimp only
  rw [read]

theorem digits_hexlified (value : Nat) (data : Bytes) :
    digits value (hexlified data) = some (value * 256 ^ data.length + decode data) := by
  induction data generalizing value with
  | nil => simp [hexlified, digits, decode]
  | cons byte rest induction =>
      have below := byte.toNat_lt
      have high := (digit_plain (byte.toNat / 16) (by omega)).1
      have low := (digit_plain (byte.toNat % 16) (by omega)).1
      have parted : hexlified (byte :: rest) =
          digit (byte.toNat / 16) :: digit (byte.toNat % 16) :: hexlified rest := rfl
      have whole : (value * 16 + byte.toNat / 16) * 16 + byte.toNat % 16 =
          value * 256 + byte.toNat := by omega
      rw [parted, digits_cons high, digits_cons low, whole, induction, decode, List.length_cons, pow_succ]
      congr 1
      ring

theorem strip_bare {bytes : Bytes} (bare : ∀ byte ∈ bytes, isSpace byte = false) :
    strip bytes = bytes := by
  have front : ∀ some_ : Bytes, (∀ byte ∈ some_, isSpace byte = false) →
      some_.dropWhile isSpace = some_ := by
    intro some_ each
    cases some_ with
    | nil => rfl
    | cons byte rest =>
        have kept := each byte List.mem_cons_self
        exact List.dropWhile_cons_of_neg (by rw [kept]; exact Bool.false_ne_true)
  rw [strip, front bytes bare,
    front bytes.reverse fun byte member => bare byte (List.mem_reverse.mp member),
    List.reverse_reverse]

/-- The digits of some bytes are the number the bytes are, blanks taken off or not. -/
theorem int_hexlified {data : Bytes} (some_ : data ≠ []) :
    int (strip (hexlified data)) = some (decode data : Int) := by
  have bare : ∀ byte ∈ hexlified data, isSpace byte = false := by
    intro byte member
    obtain ⟨value, small, rfl⟩ := hexlified_digits data byte member
    exact (digit_plain value small).2.1
  rw [strip_bare bare, int, strip_bare bare]
  cases data with
  | nil => exact absurd rfl some_
  | cons byte rest =>
      have below := byte.toNat_lt
      obtain ⟨high, -, minus, plus, -, -⟩ := digit_plain (byte.toNat / 16) (by omega)
      obtain ⟨-, -, -, -, small, capital⟩ := digit_plain (byte.toNat % 16) (by omega)
      have parted : hexlified (byte :: rest) =
          digit (byte.toNat / 16) :: digit (byte.toNat % 16) :: hexlified rest := rfl
      have read : unsigned (hexlified (byte :: rest)) = some (decode (byte :: rest)) := by
        have all := digits_hexlified 0 (byte :: rest)
        rw [parted, digits_cons high] at all
        simp only [Nat.zero_mul, Nat.zero_add] at all
        rw [parted, unsigned, high]
        exact all
      have plain : prefixed (hexlified (byte :: rest)) = some (decode (byte :: rest)) := by
        rw [← read, parted, prefixed, if_neg]
        rintro ⟨-, marked | marked⟩
        · exact small marked
        · exact capital marked
      rw [parted] at plain ⊢
      dsimp only
      rw [if_neg minus, if_neg plus, plain]
      rfl

end XRootDClient.Lib.Hex
