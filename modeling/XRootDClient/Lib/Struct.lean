import XRootDClient.Lib.BigEndian
import Mathlib.Data.Nat.Log
import Mathlib.Data.UInt

/-!
Numbers as `struct.pack` writes them, big-endian. An integer goes into an integer
field it fits. A float is held by the bits of its double; a single is the nearest one,
ties to even, and a value too large for the field is refused. What is written always
has the width of its code.
-/

set_option autoImplicit false

namespace XRootDClient.Lib.Struct

open BigEndian

/-- `value / 2 ** shift`, to the nearest integer, ties to even. -/
def nearest (value shift : Nat) : Nat :=
  let quotient := value / 2 ^ shift
  let twice := 2 * (value % 2 ^ shift)
  if 2 ^ shift < twice ∨ twice = 2 ^ shift ∧ quotient % 2 = 1 then quotient + 1 else quotient

/-- The double nearest to an integer, unless that is beyond the doubles. -/
def doubleOfInt (value : Int) : Option UInt64 :=
  if value = 0 then some 0
  else
    let magnitude := value.natAbs
    let top := Nat.log 2 magnitude
    let significand :=
      if top ≤ 52 then magnitude * 2 ^ (52 - top) else nearest magnitude (top - 52)
    -- A carry out of the significand goes into the exponent by itself.
    let bits := (top + 1022) * 2 ^ 52 + significand
    if 2047 * 2 ^ 52 ≤ bits then none
    else some (UInt64.ofNat (bits + if value < 0 then 2 ^ 63 else 0))

/-- The single nearest to a double, unless that is beyond the singles. -/
def singleOfDouble (double : UInt64) : Option UInt32 :=
  let bits := double.toNat
  let sign := bits / 2 ^ 63 * 2 ^ 31
  let exponent := bits / 2 ^ 52 % 2 ^ 11
  let fraction := bits % 2 ^ 52
  if exponent = 2047 then
    -- An infinity, or no number at all: the latter keeps the upper bits of what it says.
    let kept := if fraction = 0 then 0 else fraction / 2 ^ 29 % 2 ^ 22 + 2 ^ 22
    some (UInt32.ofNat (sign + 255 * 2 ^ 23 + kept))
  else if exponent = 0 then some (UInt32.ofNat sign)
  else
    let single :=
      if 897 ≤ exponent then (exponent - 897) * 2 ^ 23 + nearest (2 ^ 52 + fraction) 29
      else nearest (2 ^ 52 + fraction) (29 + (897 - exponent))
    if 255 * 2 ^ 23 ≤ single then none else some (UInt32.ofNat (sign + single))

/-- What `struct.pack` can tell of a value. A truth value is an integer to it. -/
inductive Scalar
  | int (value : Int)
  | float (bits : UInt64)
  | other (truthy : Bool)
  deriving DecidableEq

def Scalar.truthy : Scalar → Bool
  | .int value => value ≠ 0
  | .float bits => bits ≠ 0 ∧ bits ≠ 2 ^ 63
  | .other truthy => truthy

inductive Code
  | truth
  | whole (size : Nat) (signed : Bool)
  | single
  | double
  deriving DecidableEq

def Code.width : Code → Nat
  | .truth => 1
  | .whole size _ => size
  | .single => 4
  | .double => 8

inductive Failure
  | structError
  | overflowError
  deriving DecidableEq

def Fits (size : Nat) : Bool → Int → Prop
  | true, value => -(256 ^ size / 2 : Nat) ≤ value ∧ value < (256 ^ size / 2 : Nat)
  | false, value => 0 ≤ value ∧ value < (256 ^ size : Nat)

instance (size : Nat) (signed : Bool) (value : Int) : Decidable (Fits size signed value) :=
  match signed with
  | true => inferInstanceAs (Decidable (_ ∧ _))
  | false => inferInstanceAs (Decidable (_ ∧ _))

def packWhole (size : Nat) (signed : Bool) (value : Int) : Except Failure Bytes :=
  if Fits size signed value then .ok (encode size (unsigned size value))
  else .error .structError

def packDouble : Scalar → Except Failure UInt64
  | .int value => (doubleOfInt value).elim (.error .structError) .ok
  | .float bits => .ok bits
  | .other _ => .error .structError

def pack (code : Code) (value : Scalar) : Except Failure Bytes :=
  match code with
  | .truth => .ok [if value.truthy then 1 else 0]
  | .whole size signed =>
      match value with
      | .int value => packWhole size signed value
      | _ => .error .structError
  | .double => do
      let bits ← packDouble value
      return encode 8 bits.toNat
  | .single => do
      let bits ← packDouble value
      match singleOfDouble bits with
      | none => .error .overflowError
      | some single => return encode 4 single.toNat

def packAll (code : Code) : List Scalar → Except Failure Bytes
  | [] => .ok []
  | value :: rest => do
      let field ← pack code value
      let fields ← packAll code rest
      return field ++ fields

theorem pack_whole_length {size : Nat} {signed : Bool} {value : Int} {field : Bytes}
    (packed : packWhole size signed value = .ok field) : field.length = size := by
  rw [packWhole] at packed
  split at packed
  case isTrue fits =>
      cases packed
      exact encode_length _ _
  case isFalse => cases packed

theorem pack_length {code : Code} {value : Scalar} {field : Bytes}
    (packed : pack code value = .ok field) : field.length = code.width := by
  cases code with
  | truth =>
      cases packed
      rfl
  | whole size signed =>
      cases value with
      | int value => exact pack_whole_length packed
      | float bits => cases packed
      | other truthy => cases packed
  | single =>
      simp only [pack] at packed
      cases double : packDouble value with
      | error failure =>
          rw [double] at packed
          cases packed
      | ok bits =>
          rw [double] at packed
          cases single : singleOfDouble bits with
          | none => simp [single, bind, Except.bind] at packed
          | some narrow =>
              simp only [single, bind, Except.bind, pure, Except.pure] at packed
              cases packed
              exact encode_length _ _
  | double =>
      simp only [pack] at packed
      cases double : packDouble value with
      | error failure =>
          rw [double] at packed
          cases packed
      | ok bits =>
          rw [double] at packed
          cases packed
          exact encode_length _ _

theorem pack_all_length {code : Code} {values : List Scalar} {fields : Bytes}
    (packed : packAll code values = .ok fields) : fields.length = values.length * code.width := by
  induction values generalizing fields with
  | nil =>
      cases packed
      simp
  | cons value rest induction =>
      simp only [packAll] at packed
      cases first : pack code value with
      | error failure =>
          rw [first] at packed
          cases packed
      | ok field =>
          cases others : packAll code rest with
          | error failure =>
              rw [first, others] at packed
              cases packed
          | ok more =>
              rw [first, others] at packed
              cases packed
              rw [List.length_append, pack_length first, induction others, List.length_cons,
                Nat.succ_mul, Nat.add_comm]

end XRootDClient.Lib.Struct
