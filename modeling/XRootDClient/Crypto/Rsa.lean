import Mathlib.NumberTheory.LucasLehmer
import XRootDClient.Lib.BigEndian
import XRootDClient.Lib.Residues
import XRootDClient.Lib.Stateful

/-!
# RSA

A private key signs with the padding of PKCS#1 v1.5 and a power modulo the key; where
the primes are known, the power is taken modulo each of them with a reduced exponent
and put together again. That comes to the plain power for every value, multiples of
the primes included, and what is signed is verified.

The hashes of `hashlib` are given.
-/

set_option autoImplicit false

namespace XRootDClient.Crypto.Rsa

open Lib Lib.BigEndian Lib.Residues Lib.Stateful

inductive Error
  /-- `ValueError`: a base without an inverse, or a modulus of zero. -/
  | valueError
  | zeroDivision
  /-- `OverflowError`: `to_bytes` of a value that is too big. -/
  | overflow
  | unsupportedDigest (digest : String)
  | doesNotFit (length size : Nat)
  deriving DecidableEq

/-- `pow(base, exponent, modulus)`. -/
def powMod (base exponent modulus : Nat) : Except Error Nat :=
  if modulus = 0 then .error .valueError else .ok (base ^ exponent % modulus)

/-- `pow(base, -1, modulus)`. -/
def inverseMod (base modulus : Nat) : Except Error Nat :=
  if modulus = 0 then .error .valueError
  else if base.gcd modulus ≠ 1 then .error .valueError
  else .ok (base.gcdA modulus % modulus).toNat

/-- `value % modulus`. -/
def modulo (value modulus : Nat) : Except Error Nat :=
  if modulus = 0 then .error .zeroDivision else .ok (value % modulus)

/-- `value.to_bytes(size, "big")`. -/
def toBytes (value size : Nat) : Except Error Bytes :=
  if value < 256 ^ size then .ok (encode size value) else .error .overflow

def sizeOf (n : Nat) : Nat := (n.size + 7) / 8

structure RSAPublicKey where
  n : Nat
  e : Nat

structure RSAPrivateKey where
  n : Nat
  e : Nat
  d : Nat
  p : Nat := 0
  q : Nat := 0

def RSAPrivateKey.size (key : RSAPrivateKey) : Nat := sizeOf key.n

def RSAPrivateKey.public (key : RSAPrivateKey) : RSAPublicKey := ⟨key.n, key.e⟩

/-- `_DIGEST_PREFIXES`. -/
def digestPrefix (name : String) : Option Bytes :=
  if name = "sha1" then
    some [0x30, 0x21, 0x30, 0x09, 0x06, 0x05, 0x2b, 0x0e, 0x03, 0x02, 0x1a, 0x05, 0x00, 0x04, 0x14]
  else if name = "sha256" then
    some [0x30, 0x31, 0x30, 0x0d, 0x06, 0x09, 0x60, 0x86, 0x48, 0x01, 0x65, 0x03, 0x04, 0x02, 0x01,
      0x05, 0x00, 0x04, 0x20]
  else if name = "sha384" then
    some [0x30, 0x41, 0x30, 0x0d, 0x06, 0x09, 0x60, 0x86, 0x48, 0x01, 0x65, 0x03, 0x04, 0x02, 0x02,
      0x05, 0x00, 0x04, 0x30]
  else if name = "sha512" then
    some [0x30, 0x51, 0x30, 0x0d, 0x06, 0x09, 0x60, 0x86, 0x48, 0x01, 0x65, 0x03, 0x04, 0x02, 0x03,
      0x05, 0x00, 0x04, 0x40]
  else none

/-- `digest.lower().replace("-", "")`. -/
def digestName (digest : String) : String :=
  String.ofList ((digest.toList.map Char.toLower).filter (· ≠ '-'))

/-- What is padded: the message, or its digest behind what names the hash. -/
def wrapped (hash : String → Bytes → Bytes) (message : Bytes) : Option String → Except Error Bytes
  | none => .ok message
  | some digest =>
      match digestPrefix (digestName digest) with
      | none => .error (.unsupportedDigest digest)
      | some prefix_ => .ok (prefix_ ++ hash (digestName digest) message)

def pkcs1V15Pad (hash : String → Bytes → Bytes) (message : Bytes) (size : Nat)
    (digest : Option String) : Except Error Bytes := do
  let message ← wrapped hash message digest
  if size < message.length + 11 then .error (.doesNotFit message.length size)
  else .ok ([0x00, 0x01] ++ List.replicate (size - message.length - 3) 0xff ++ [0x00] ++ message)

def RSAPrivateKey.power (key : RSAPrivateKey) (value : Nat) : Except Error Nat :=
  if key.p ≠ 0 ∧ key.q ≠ 0 then do
    let mp ← powMod (value % key.p) (← modulo key.d (key.p - 1)) key.p
    let mq ← powMod (value % key.q) (← modulo key.d (key.q - 1)) key.q
    let coefficient ← inverseMod key.q key.p
    modulo (mq + key.q * (((coefficient : Int) * (mp - mq)) % key.p).toNat) key.n
  else powMod value key.d key.n

def RSAPrivateKey.sign (hash : String → Bytes → Bytes) (key : RSAPrivateKey) (message : Bytes)
    (digest : Option String) : Except Error Bytes := do
  let block ← pkcs1V15Pad hash message key.size digest
  toBytes (← key.power (decode block)) key.size

def RSAPublicKey.verify (hash : String → Bytes → Bytes) (key : RSAPublicKey)
    (message signature : Bytes) (digest : Option String) : Except Error Bool :=
  if signature.length ≠ sizeOf key.n then .ok false
  else do
    let recovered ← powMod (decode signature) key.e key.n
    let expected ← pkcs1V15Pad hash message (sizeOf key.n) digest
    return (← toBytes recovered (sizeOf key.n)) = expected

/-- A key whose primes are known and whose exponents undo each other. -/
structure RSAPrivateKey.Sound (key : RSAPrivateKey) : Prop where
  p_prime : key.p.Prime
  q_prime : key.q.Prime
  p_odd : Odd key.p
  q_odd : Odd key.q
  distinct : key.p ≠ key.q
  modulus : key.n = key.p * key.q
  inverse : key.e * key.d ≡ 1 [MOD (key.p - 1).lcm (key.q - 1)]

theorem pow_mod_of {modulus : Nat} (some_ : modulus ≠ 0) (base exponent : Nat) :
    powMod base exponent modulus = .ok (base ^ exponent % modulus) :=
  if_neg some_

theorem modulo_of {modulus : Nat} (some_ : modulus ≠ 0) (value : Nat) :
    modulo value modulus = .ok (value % modulus) :=
  if_neg some_

theorem inverse_mod_inverts {base modulus : Nat} (positive : 0 < modulus)
    (coprime : base.Coprime modulus) :
    ∃ inverse, inverseMod base modulus = .ok inverse ∧ base * inverse ≡ 1 [MOD modulus] := by
  refine ⟨_, by rw [inverseMod, if_neg (by omega), if_neg (not_not.mpr coprime)], ?_⟩
  rw [← Int.natCast_modEq_iff]
  have kept : 0 ≤ base.gcdA modulus % (modulus : Int) := Int.emod_nonneg _ (by omega)
  have bezout := Nat.gcd_eq_gcd_ab base modulus
  rw [coprime] at bezout
  push_cast at bezout ⊢
  rw [Int.toNat_of_nonneg kept]
  calc (base : Int) * (base.gcdA modulus % modulus)
      ≡ base * base.gcdA modulus [ZMOD modulus] := (Int.mod_modEq _ _).mul_left _
    _ ≡ base * base.gcdA modulus + modulus * base.gcdB modulus [ZMOD modulus] :=
        (Int.add_mul_emod_self_left _ _ _).symm
    _ = 1 := bezout.symm

section Sound

variable {key : RSAPrivateKey}

theorem one_lt_of_odd {prime : Nat} (isPrime : prime.Prime) (odd : Odd prime) : 2 < prime := by
  have two := isPrime.two_le
  obtain ⟨half, rfl⟩ := odd
  omega

theorem RSAPrivateKey.Sound.modulus_some (sound : key.Sound) : key.n ≠ 0 := by
  rw [sound.modulus]
  exact Nat.mul_ne_zero sound.p_prime.ne_zero sound.q_prime.ne_zero

theorem RSAPrivateKey.Sound.inverses (sound : key.Sound) :
    key.e * key.d ≡ 1 [MOD key.p - 1] ∧ key.e * key.d ≡ 1 [MOD key.q - 1] :=
  ⟨sound.inverse.of_dvd (Nat.dvd_lcm_left _ _), sound.inverse.of_dvd (Nat.dvd_lcm_right _ _)⟩

theorem reduced_positive {prime first second : Nat} (large : 2 < prime)
    (inverse : first * second ≡ 1 [MOD prime - 1]) : 0 < second % (prime - 1) := by
  by_contra none
  have zero : second ≡ 0 [MOD prime - 1] := by
    rw [Nat.ModEq, Nat.zero_mod]
    omega
  have product : 1 ≡ 0 [MOD prime - 1] := inverse.symm.trans (zero.mul_left first)
  rw [Nat.ModEq, Nat.zero_mod, Nat.mod_eq_of_lt (by omega)] at product
  exact absurd product Nat.one_ne_zero

theorem reduced_power {prime first second : Nat} (isPrime : prime.Prime) (large : 2 < prime)
    (inverse : first * second ≡ 1 [MOD prime - 1]) (value : Nat) :
    (value % prime) ^ (second % (prime - 1)) % prime ≡ value ^ second [MOD prime] := by
  have positive := reduced_positive large inverse
  have whole : 0 < second := by
    by_contra none
    rw [Nat.eq_zero_of_not_pos none, Nat.zero_mod] at positive
    exact absurd positive (Nat.lt_irrefl 0)
  calc (value % prime) ^ (second % (prime - 1)) % prime
      ≡ (value % prime) ^ (second % (prime - 1)) [MOD prime] := Nat.mod_modEq _ _
    _ ≡ value ^ (second % (prime - 1)) [MOD prime] := (Nat.mod_modEq _ _).pow _
    _ ≡ value ^ second [MOD prime] :=
        pow_congr isPrime positive whole (Nat.mod_modEq _ _) value

theorem RSAPrivateKey.Sound.power (sound : key.Sound) (value : Nat) :
    key.power value = .ok (value ^ key.d % key.n) := by
  have largeP := one_lt_of_odd sound.p_prime sound.p_odd
  have largeQ := one_lt_of_odd sound.q_prime sound.q_odd
  have apart : key.p.Coprime key.q :=
    (Nat.coprime_primes sound.p_prime sound.q_prime).mpr sound.distinct
  obtain ⟨inverse, inverted, unit⟩ := inverse_mod_inverts (by omega) apart.symm
  have whole := recombined (by omega) unit apart
    (reduced_power sound.p_prime largeP sound.inverses.1 value)
    (reduced_power sound.q_prime largeQ sound.inverses.2 value)
  rw [← sound.modulus] at whole
  have someP : key.p ≠ 0 := by omega
  have someQ : key.q ≠ 0 := by omega
  have belowP : key.p - 1 ≠ 0 := by omega
  have belowQ : key.q - 1 ≠ 0 := by omega
  rw [RSAPrivateKey.power, if_pos ⟨someP, someQ⟩, inverted]
  simp only [modulo_of belowP, modulo_of belowQ, modulo_of sound.modulus_some, pow_mod_of someP,
    pow_mod_of someQ]
  exact congrArg Except.ok whole

theorem padded {hash : String → Bytes → Bytes} {message block : Bytes} {size : Nat}
    {digest : Option String} (made : pkcs1V15Pad hash message size digest = .ok block) :
    block.length = size ∧ 11 ≤ size ∧ decode block < 256 ^ (size - 1) := by
  rw [pkcs1V15Pad] at made
  obtain ⟨whole, -, fits⟩ := except_returns made
  by_cases long : size < whole.length + 11
  · rw [if_pos long] at fits
    cases fits
  · rw [if_neg long] at fits
    cases fits
    refine ⟨?_, by omega, ?_⟩
    · simp only [List.length_append, List.length_cons, List.length_nil, List.length_replicate]
      omega
    · rw [List.append_assoc, List.append_assoc, decode_append]
      generalize rest : List.replicate (size - whole.length - 3) 0xff ++ ([0x00] ++ whole) = tail
      have length : tail.length = size - 2 := by
        rw [← rest]
        simp only [List.length_append, List.length_cons, List.length_nil, List.length_replicate]
        omega
      have below := decode_lt tail
      have head : decode [0x00, 0x01] = 1 := by decide
      have next_ : size - 1 = size - 2 + 1 := by omega
      rw [length] at below
      rw [head, length, next_, Nat.pow_succ]
      omega

theorem below_modulus {n value : Nat} (some_ : 0 < sizeOf n) (below : value < 256 ^ (sizeOf n - 1)) :
    value < n := by
  have bits : 8 * (sizeOf n - 1) < n.size := by
    rw [sizeOf] at some_ ⊢
    omega
  have large : 2 ^ (8 * (sizeOf n - 1)) ≤ n := Nat.lt_size.mp bits
  rw [Nat.pow_mul] at large
  exact below.trans_le large

theorem below_size {n value : Nat} (below : value < n) : value < 256 ^ sizeOf n := by
  have large : n < 2 ^ n.size := Nat.lt_size_self n
  have room : 2 ^ n.size ≤ 2 ^ (8 * sizeOf n) := by
    apply Nat.pow_le_pow_right (by decide)
    rw [sizeOf]
    omega
  rw [Nat.pow_mul] at room
  exact (below.trans large).trans_le room

theorem encode_decode (bytes : Bytes) : encode bytes.length (decode bytes) = bytes := by
  apply decode_injective (by simp)
  rw [decode_encode (decode_lt bytes)]

theorem RSAPrivateKey.Sound.sign_of {hash : String → Bytes → Bytes} {message block : Bytes}
    {digest : Option String} (sound : key.Sound)
    (made : pkcs1V15Pad hash message key.size digest = .ok block) :
    key.sign hash message digest = .ok (encode key.size (decode block ^ key.d % key.n)) := by
  have fits : decode block ^ key.d % key.n < 256 ^ key.size :=
    below_size (Nat.mod_lt _ (Nat.pos_of_ne_zero sound.modulus_some))
  rw [RSAPrivateKey.sign, made]
  simp only [bind, Except.bind, sound.power]
  rw [toBytes, if_pos fits]

theorem RSAPrivateKey.Sound.sign_returns {hash : String → Bytes → Bytes} {message signature : Bytes}
    {digest : Option String} (sound : key.Sound)
    (returned : key.sign hash message digest = .ok signature) :
    ∃ block, pkcs1V15Pad hash message key.size digest = .ok block ∧
      signature = encode key.size (decode block ^ key.d % key.n) := by
  obtain ⟨block, made, -⟩ := except_returns returned
  rw [sound.sign_of made] at returned
  cases returned
  exact ⟨block, made, rfl⟩

theorem RSAPrivateKey.Sound.undone (sound : key.Sound) {value : Nat} (below : value < key.n) :
    (value ^ key.d % key.n) ^ key.e % key.n = value := by
  have largeP := one_lt_of_odd sound.p_prime sound.p_odd
  have apart : key.p.Coprime key.q :=
    (Nat.coprime_primes sound.p_prime sound.q_prime).mpr sound.distinct
  have positive : 0 < key.e * key.d := by
    by_contra none
    have zero := sound.inverses.1
    rw [Nat.eq_zero_of_not_pos none, Nat.ModEq, Nat.zero_mod, Nat.mod_eq_of_lt (by omega)] at zero
    exact absurd zero.symm Nat.one_ne_zero
  have same : value ^ (key.e * key.d) ≡ value [MOD key.n] := by
    rw [sound.modulus, ← Nat.modEq_and_modEq_iff_modEq_mul apart]
    exact ⟨pow_one_congr sound.p_prime positive sound.inverses.1 value,
      pow_one_congr sound.q_prime positive sound.inverses.2 value⟩
  calc (value ^ key.d % key.n) ^ key.e % key.n
      = (value ^ key.d) ^ key.e % key.n := (Nat.mod_modEq _ _).pow _
    _ = value ^ (key.e * key.d) % key.n := by rw [← pow_mul, Nat.mul_comm]
    _ = value % key.n := same
    _ = value := Nat.mod_eq_of_lt below

theorem RSAPrivateKey.Sound.verified {hash : String → Bytes → Bytes} {message signature : Bytes}
    {digest : Option String} (sound : key.Sound)
    (signed : key.sign hash message digest = .ok signature) :
    ∃ block, pkcs1V15Pad hash message key.size digest = .ok block ∧
      ∀ other named, key.public.verify hash other signature named =
        (pkcs1V15Pad hash other key.size named).map fun expected => block == expected := by
  obtain ⟨block, made, rfl⟩ := sound.sign_returns signed
  obtain ⟨length, long, below⟩ := padded made
  have small : decode block < key.n := below_modulus (by rw [RSAPrivateKey.size] at long; omega) below
  have fits : decode block ^ key.d % key.n < 256 ^ key.size :=
    below_size (Nat.mod_lt _ (Nat.pos_of_ne_zero sound.modulus_some))
  have recovered : toBytes (decode block) key.size = .ok block := by
    have again := encode_decode block
    have room : decode block < 256 ^ key.size := below_size small
    rw [length] at again
    rw [toBytes, if_pos room, again]
  have publicSize : sizeOf key.public.n = key.size := rfl
  have publicN : key.public.n = key.n := rfl
  have publicE : key.public.e = key.e := rfl
  refine ⟨block, made, fun other named => ?_⟩
  rw [RSAPublicKey.verify, publicSize, publicN, publicE, encode_length, if_neg (not_not.mpr rfl),
    pow_mod_of sound.modulus_some, decode_encode fits, sound.undone small]
  cases pkcs1V15Pad hash other key.size named with
  | error error => rfl
  | ok expected =>
      simp only [bind, Except.bind, recovered, pure, Except.pure, Except.map]
      exact congrArg Except.ok (by rw [Bool.eq_iff_iff, decide_eq_true_iff, beq_iff_eq])

theorem filled_injective {one other : Nat} {message rest : Bytes}
    (same : List.replicate one 0xff ++ (0x00 :: message : Bytes) =
      List.replicate other 0xff ++ (0x00 :: rest : Bytes)) : message = rest := by
  induction one generalizing other with
  | zero =>
      cases other with
      | zero => exact (List.cons.inj same).2
      | succ more => exact absurd (List.cons.inj same).1 (by decide)
  | succ one induction =>
      cases other with
      | zero => exact absurd (List.cons.inj same).1 (by decide)
      | succ more => exact induction (List.cons.inj same).2

theorem padding_injective {hash : String → Bytes → Bytes} {message other block : Bytes} {size : Nat}
    (made : pkcs1V15Pad hash message size none = .ok block)
    (same : pkcs1V15Pad hash other size none = .ok block) : message = other := by
  have shape : ∀ {whole : Bytes}, pkcs1V15Pad hash whole size none = .ok block →
      block = [0x00, 0x01] ++ (List.replicate (size - whole.length - 3) 0xff ++ 0x00 :: whole) := by
    intro whole made
    rw [pkcs1V15Pad] at made
    obtain ⟨kept, bare, fits⟩ := except_returns made
    cases bare
    by_cases long : size < whole.length + 11
    · rw [if_pos long] at fits
      cases fits
    · rw [if_neg long] at fits
      cases fits
      simp only [List.append_assoc, List.singleton_append]
  have both := (shape made).symm.trans (shape same)
  exact filled_injective (List.append_cancel_left both)

/-- The power by the primes is the plain power, and what a key signs it verifies. -/
theorem crt_signs (key : RSAPrivateKey) (sound : key.Sound) :
    (∀ value, value < key.n → key.power value = .ok (value ^ key.d % key.n)) ∧
    ∀ hash message digest signature, key.sign hash message digest = .ok signature →
      signature.length = key.size ∧
        key.public.verify hash message signature digest = .ok true := by
  refine ⟨fun value _ => sound.power value, fun hash message digest signature signed => ?_⟩
  obtain ⟨block, made, rfl⟩ := sound.sign_returns signed
  obtain ⟨length, long, below⟩ := padded made
  have small : decode block < key.n := below_modulus (by rw [RSAPrivateKey.size] at long; omega) below
  have fits : decode block ^ key.d % key.n < 256 ^ key.size :=
    below_size (Nat.mod_lt _ (Nat.pos_of_ne_zero sound.modulus_some))
  refine ⟨encode_length _ _, ?_⟩
  have publicSize : sizeOf key.public.n = key.size := rfl
  have publicN : key.public.n = key.n := rfl
  have publicE : key.public.e = key.e := rfl
  have recovered : toBytes (decode block) key.size = .ok block := by
    have again := encode_decode block
    have room : decode block < 256 ^ key.size := below_size small
    rw [length] at again
    rw [toBytes, if_pos room, again]
  rw [RSAPublicKey.verify, publicSize, publicN, publicE, encode_length, if_neg (not_not.mpr rfl),
    pow_mod_of sound.modulus_some, decode_encode fits, sound.undone small, made]
  simp only [bind, Except.bind, recovered]
  simp [pure, Except.pure]

end Sound

/-- A key of two Mersenne primes, long enough for a message of one byte. -/
def mersenneKey : RSAPrivateKey where
  n := 4951760154835678088235319297
  e := 65537
  d := 1690970304802162823
  p := 2305843009213693951
  q := 2147483647

theorem mersenne_key_sound : mersenneKey.Sound where
  p_prime := lucas_lehmer_sufficiency 61 (by norm_num) (by norm_num)
  q_prime := lucas_lehmer_sufficiency 31 (by norm_num) (by norm_num)
  p_odd := by decide
  q_odd := by decide
  distinct := by decide
  modulus := by decide
  inverse := by decide

theorem one_byte_signed :
    mersenneKey.power mersenneKey.p = .ok (mersenneKey.p ^ mersenneKey.d % mersenneKey.n) ∧
    ∃ signature, mersenneKey.sign (fun _ _ => []) [7] none = .ok signature ∧
      signature.length = mersenneKey.size ∧
      mersenneKey.public.verify (fun _ _ => []) [7] signature none = .ok true := by
  obtain ⟨powers, verifies⟩ := crt_signs mersenneKey mersenne_key_sound
  refine ⟨powers _ (by decide), ?_⟩
  have bits : mersenneKey.n.size = 92 := by
    apply Nat.le_antisymm
    · exact Nat.size_le.mpr (by decide)
    · exact Nat.lt_size.mpr (by decide)
  have size : mersenneKey.size = 12 := by
    rw [RSAPrivateKey.size, sizeOf, bits]
  have made : pkcs1V15Pad (fun _ _ => []) [7] mersenneKey.size none =
      .ok [0, 1, 0xff, 0xff, 0xff, 0xff, 0xff, 0xff, 0xff, 0xff, 0, 7] := by
    rw [size]
    rfl
  exact ⟨_, mersenne_key_sound.sign_of made, verifies _ _ _ _ (mersenne_key_sound.sign_of made)⟩

end XRootDClient.Crypto.Rsa
