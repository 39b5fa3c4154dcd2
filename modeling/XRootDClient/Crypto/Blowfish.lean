import XRootDClient.Lib.Feistel
import XRootDClient.Lib.Stateful

/-!
# Blowfish

The cipher an SSS credential is sealed with: its boxes are computed from pi, taken
through the key schedule and then overwritten with what the cipher makes of them. That
it is undone does not depend on what is in the boxes, only on the network.
-/

set_option autoImplicit false

namespace XRootDClient.Crypto.Blowfish

open Lib Lib.BigEndian Lib.Rounds Lib.Stateful

inductive Error
  | keyEmpty
  | keyLength (length : Nat)
  | ivLength (length : Nat)
  deriving DecidableEq

def NWORDS : Nat := 18 + 4 * 256

/-- The loop of `atan_inv`, over the terms of the series until they vanish. -/
def atanTerms (x2 : Nat) (wide : 1 < x2) (term k : Nat) (total : Int) : Int :=
  if term = 0 then total
  else
    let next := term / x2
    let part := Int.ofNat (next / (k + 2))
    atanTerms x2 wide next (k + 2) (total + if (k + 2) / 2 % 2 = 1 then -part else part)
termination_by term
decreasing_by exact Nat.div_lt_self (Nat.pos_of_ne_zero ‹_›) wide

/-- `atan_inv`, for a number whose square is past one. -/
def atanInv (one x : Nat) (wide : 1 < x * x) : Int := atanTerms (x * x) wide (one / x) 1 (one / x : Nat)

def piFractionWords (count : Nat) : List UInt32 :=
  let bits := count * 32 + 64
  let one := 1 <<< bits
  let frac := 16 * atanInv one 5 (by decide) - 4 * atanInv one 239 (by decide) - 3 * (one : Int)
  (List.range count).map fun i => UInt32.ofInt (frac >>> (bits - 32 * (i + 1)))

structure Cipher where
  p : List UInt32
  s : List (List UInt32)

def initialBoxes : Cipher :=
  let pi := piFractionWords NWORDS
  ⟨pi.take 18, (List.range 4).map fun i => (pi.drop (18 + 256 * i)).take 256⟩

namespace Cipher

variable (cipher : Cipher)

def word (i : Nat) : UInt32 := cipher.p.getD i 0

def box (i : Nat) (place : UInt32) : UInt32 := (cipher.s.getD i []).getD place.toNat 0

def f (x : UInt32) : UInt32 :=
  ((cipher.box 0 (x >>> 24) + cipher.box 1 ((x >>> 16) &&& 0xFF)) ^^^
    cipher.box 2 ((x >>> 8) &&& 0xFF)) + cipher.box 3 (x &&& 0xFF)

/-- One turn of the loops of both directions, with the halves changed over. -/
def turn (halves : UInt32 × UInt32) (i : Nat) : UInt32 × UInt32 :=
  let left := halves.1 ^^^ cipher.word i
  let right := halves.2 ^^^ cipher.f left
  (right, left)

def encryptBlock (left right : UInt32) : UInt32 × UInt32 :=
  let (right, left) := (List.range 16).foldl cipher.turn (left, right)
  (left ^^^ cipher.word 17, right ^^^ cipher.word 16)

def decryptBlock (left right : UInt32) : UInt32 × UInt32 :=
  let (right, left) := ((List.range 16).map (17 - ·)).foldl cipher.turn (left, right)
  (left ^^^ cipher.word 0, right ^^^ cipher.word 1)

variable {cipher}

theorem encrypt_whitened (left right : UInt32) :
    cipher.encryptBlock left right = Feistel.whitened (· ^^^ ·) cipher.word 16
      (Feistel.ahead (· ^^^ ·) cipher.f cipher.word 16 (left, right)) := rfl

theorem places_down : (List.range 16).map (17 - ·) = Feistel.downTo 16 := by decide

theorem block_undone (left right : UInt32) :
    cipher.decryptBlock (cipher.encryptBlock left right).1 (cipher.encryptBlock left right).2 =
      (left, right) := by
  have cancels : ∀ left right : UInt32, left ^^^ right ^^^ right = left := by
    intro left right
    rw [UInt32.xor_assoc, UInt32.xor_self, UInt32.xor_zero]
  have commutes : ∀ left first second : UInt32,
      left ^^^ first ^^^ second = left ^^^ second ^^^ first := by
    intro left first second
    rw [UInt32.xor_assoc, UInt32.xor_comm first, ← UInt32.xor_assoc]
  have turned : (Feistel.downTo 16).foldl cipher.turn (cipher.encryptBlock left right) =
      (right ^^^ cipher.word 1, left ^^^ cipher.word 0) := by
    rw [encrypt_whitened]
    exact Feistel.undone cancels commutes 16 (left, right)
  rw [decryptBlock, places_down, Prod.mk.eta, turned]
  dsimp only
  rw [cancels, cancels]

def rekeyWords (state : Cipher × UInt32 × UInt32) (pair : Nat) : Cipher × UInt32 × UInt32 :=
  let (left, right) := state.1.encryptBlock state.2.1 state.2.2
  ({ state.1 with p := (state.1.p.set (2 * pair) left).set (2 * pair + 1) right }, left, right)

def rekeyBox (box : Nat) (state : Cipher × UInt32 × UInt32) (pair : Nat) :
    Cipher × UInt32 × UInt32 :=
  let (left, right) := state.1.encryptBlock state.2.1 state.2.2
  let boxes := state.1.s.modify box fun words =>
    (words.set (2 * pair) left).set (2 * pair + 1) right
  ({ state.1 with s := boxes }, left, right)

end Cipher

def keyWord (key : Bytes) (i : Nat) : UInt32 :=
  (List.range 4).foldl
    (fun k turn => (k <<< 8) ||| (key.getD ((4 * i + turn) % key.length) 0).toUInt32) 0

def keyed (key : Bytes) : Cipher :=
  let first := initialBoxes
  let mixed := { first with p := first.p.mapIdx fun i word => word ^^^ keyWord key i }
  let state := (List.range 9).foldl Cipher.rekeyWords (mixed, 0, 0)
  ((List.range 4).foldl
    (fun state box => (List.range 128).foldl (Cipher.rekeyBox box) state) state).1

/-- `Blowfish(key)`. -/
def Cipher.new (key : Bytes) : Except Error Cipher :=
  if key = [] then .error .keyEmpty
  else if 56 < key.length then .error (.keyLength key.length)
  else .ok (keyed key)

namespace Cipher

variable (cipher : Cipher)

def stream (fb : Bytes) : Bytes :=
  let halves := cipher.encryptBlock
    (UInt32.ofNat (decode (fb.take 4))) (UInt32.ofNat (decode ((fb.drop 4).take 4)))
  encode 4 halves.1.toNat ++ encode 4 halves.2.toNat

def cfb64 (iv data : Bytes) (decrypt : Bool) : Except Error Bytes :=
  if iv.length ≠ 8 then .error (.ivLength iv.length)
  else .ok (Feistel.feedback cipher.stream 8 decrypt ((data.length + 7) / 8) iv data)

def encryptCfb64 (iv data : Bytes) : Except Error Bytes := cipher.cfb64 iv data false

def decryptCfb64 (iv data : Bytes) : Except Error Bytes := cipher.cfb64 iv data true

variable {cipher}

theorem stream_length (fb : Bytes) : (cipher.stream fb).length = 8 := by
  rw [stream, List.length_append, encode_length, encode_length]

theorem cfb64_undone {iv : Bytes} (eight : iv.length = 8) (data : Bytes) :
    ∃ sealedData, cipher.encryptCfb64 iv data = .ok sealedData ∧
      sealedData.length = data.length ∧ cipher.decryptCfb64 iv sealedData = .ok data := by
  have enough : data.length ≤ 8 * ((data.length + 7) / 8) := by omega
  have kept := Feistel.feedback_length (@stream_length cipher) false iv enough
  have back := Feistel.feedback_undone (@stream_length cipher) iv enough
  refine ⟨_, if_neg (not_not.mpr eight), kept, ?_⟩
  rw [decryptCfb64, cfb64, if_neg (not_not.mpr eight), kept, back]

end Cipher

end XRootDClient.Crypto.Blowfish
