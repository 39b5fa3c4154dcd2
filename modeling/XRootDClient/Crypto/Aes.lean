import XRootDClient.Lib.Octets
import XRootDClient.Lib.Rounds
import XRootDClient.Lib.Stateful

/-!
# AES

The block cipher with its tables computed from the field, and the chaining of blocks
that GSI's session cipher uses, padded as PKCS#7 has it. A round is undone step by
step: the tables are each other's inverse, rows turn back, and the columns are mixed by
maps that are linear, so that one byte at a time shows they cancel.
-/

set_option autoImplicit false

namespace XRootDClient.Crypto.Aes

open Lib Lib.BigEndian Lib.Octets Lib.Rounds Lib.Stateful

inductive Error
  | keyLength (length : Nat)
  | blockLength (length : Nat)
  | ivLength (length : Nat)
  | unpadded
  | partialBlock
  | partialPadding
  | corruptPadding
  deriving DecidableEq

def BLOCK_SIZE : Nat := 16

def nextP (p : Nat) : Nat := p ^^^ ((p <<< 1) &&& 0xFF) ^^^ (if p &&& 0x80 ≠ 0 then 0x1B else 0)

def nextQ (q : Nat) : Nat :=
  let q := q ^^^ (q <<< 1)
  let q := q ^^^ (q <<< 2)
  let q := q ^^^ (q <<< 4)
  let q := q &&& 0xFF
  if q &&& 0x80 ≠ 0 then q ^^^ 0x09 else q

def affine (q : Nat) : UInt8 :=
  let value := q ^^^ ((q <<< 1) ||| (q >>> 7)) ^^^ ((q <<< 2) ||| (q >>> 6))
  let value := value ^^^ (((q <<< 3) ||| (q >>> 5)) ^^^ ((q <<< 4) ||| (q >>> 4)))
  UInt8.ofNat ((value ^^^ 0x63) &&& 0xFF)

/-- The walk of the generator over the field, until it is back at one. -/
def walk : Nat → Nat → Nat → List UInt8 → Option (List UInt8)
  | 0, _, _, _ => none
  | fuel + 1, p, q, sbox =>
      let p := nextP p
      let q := nextQ q
      let sbox := sbox.set p (affine q)
      if p = 1 then some (sbox.set 0 0x63) else walk fuel p q sbox

def SBOX : List UInt8 := (walk 255 1 1 (List.replicate 256 0)).getD []

def INV_SBOX : List UInt8 :=
  SBOX.zipIdx.foldl
    (fun inverse entry => inverse.set entry.1.toNat (UInt8.ofNat entry.2)) (List.replicate 256 0)

def RCON : List UInt8 :=
  [0x01, 0x02, 0x04, 0x08, 0x10, 0x20, 0x40, 0x80, 0x1B, 0x36, 0x6C, 0xD8, 0xAB, 0x4D]

/-- `SBOX[b]`. -/
def sub (byte : UInt8) : UInt8 := SBOX.getD byte.toNat 0

/-- `INV_SBOX[b]`. -/
def invSub (byte : UInt8) : UInt8 := INV_SBOX.getD byte.toNat 0

def xtime (a : UInt8) : UInt8 :=
  let a := a.toNat <<< 1
  UInt8.ofNat (if a &&& 0x100 ≠ 0 then (a ^^^ 0x1B) &&& 0xFF else a)

/-- The loop of `_mul`; as many turns as the second factor are enough. -/
def mulFrom : Nat → UInt8 → UInt8 → Nat → UInt8
  | 0, out, _, _ => out
  | turns + 1, out, a, b =>
      if b = 0 then out
      else mulFrom turns (if b &&& 1 ≠ 0 then out ^^^ a else out) (xtime a) (b >>> 1)

def mul (a : UInt8) (b : Nat) : UInt8 := mulFrom b 0 a b

def addRoundKey (state key : Bytes) : Bytes := mask state key

/-- One turn of the loop of `_shift_rows`: the row, turned, in its place. -/
def turnRow (turn : Nat → Bytes → Bytes) (state : Bytes) (row : Nat) : Bytes :=
  let column := turn row ((List.range 4).map fun c => state.getD (row + 4 * c) 0)
  (List.range 4).foldl (fun state c => state.set (row + 4 * c) (column.getD c 0)) state

def shiftRows (state : Bytes) : Bytes :=
  [1, 2, 3].foldl (turnRow fun row column => column.drop row ++ column.take row) state

def invShiftRows (state : Bytes) : Bytes :=
  [1, 2, 3].foldl (turnRow fun row column => column.drop (4 - row) ++ column.take (4 - row)) state

def columns (state : Bytes) : List Bytes := (List.range 4).map fun c => (state.drop (4 * c)).take 4

def mixColumn (a : Bytes) : Bytes :=
  let t := a.getD 0 0 ^^^ a.getD 1 0 ^^^ a.getD 2 0 ^^^ a.getD 3 0
  (List.range 4).map fun i =>
    a.getD i 0 ^^^ t ^^^ xtime (a.getD i 0 ^^^ a.getD ((i + 1) % 4) 0)

def invMixColumn (a : Bytes) : Bytes :=
  (List.range 4).map fun i =>
    mul (a.getD i 0) 14 ^^^ mul (a.getD ((i + 1) % 4) 0) 11 ^^^ mul (a.getD ((i + 2) % 4) 0) 13 ^^^
      mul (a.getD ((i + 3) % 4) 0) 9

def mixColumns (state : Bytes) : Bytes := (columns state).flatMap mixColumn

def invMixColumns (state : Bytes) : Bytes := (columns state).flatMap invMixColumn

structure AES where
  rounds : Nat
  roundKeys : List Bytes

/-- The next word of the key schedule, behind the words so far. -/
def nextWord (nk : Nat) (words : List Bytes) : Bytes :=
  let index := words.length
  let temp := words.getD (index - 1) []
  let temp :=
    if index % nk = 0 then
      let turned := (temp.drop 1 ++ temp.take 1).map sub
      turned.set 0 (turned.getD 0 0 ^^^ RCON.getD (index / nk - 1) 0)
    else if 6 < nk ∧ index % nk = 4 then temp.map sub
    else temp
  mask (words.getD (index - nk) []) temp

def schedule (nk : Nat) : Nat → List Bytes → List Bytes
  | 0, words => words
  | more + 1, words => schedule nk more (words ++ [nextWord nk words])

def expand (key : Bytes) (rounds : Nat) : List Bytes :=
  let nk := key.length / 4
  let words := (List.range nk).map fun i => (key.drop (4 * i)).take 4
  let words := schedule nk (4 * (rounds + 1) - nk) words
  (List.range (rounds + 1)).map fun r => ((words.drop (4 * r)).take 4).flatten

/-- `AES(key)`. -/
def AES.new (key : Bytes) : Except Error AES :=
  if key.length = 16 then .ok ⟨10, expand key 10⟩
  else if key.length = 24 then .ok ⟨12, expand key 12⟩
  else if key.length = 32 then .ok ⟨14, expand key 14⟩
  else .error (.keyLength key.length)

def AES.roundKey (cipher : AES) (rnd : Nat) : Bytes := cipher.roundKeys.getD rnd []

def forward (state key : Bytes) : Bytes :=
  addRoundKey (mixColumns (shiftRows (state.map sub))) key

def backward (state key : Bytes) : Bytes :=
  invMixColumns (addRoundKey ((invShiftRows state).map invSub) key)

/-- The keys of the rounds in between, in the order they are used. -/
def AES.inner (cipher : AES) : List Bytes :=
  (List.range (cipher.rounds - 1)).map fun turn => cipher.roundKey (turn + 1)

def AES.encryptBlock (cipher : AES) (block : Bytes) : Except Error Bytes :=
  if block.length ≠ BLOCK_SIZE then .error (.blockLength block.length)
  else
    let state := cipher.inner.foldl forward (addRoundKey block (cipher.roundKey 0))
    .ok (addRoundKey (shiftRows (state.map sub)) (cipher.roundKey cipher.rounds))

def AES.decryptBlock (cipher : AES) (block : Bytes) : Except Error Bytes :=
  if block.length ≠ BLOCK_SIZE then .error (.blockLength block.length)
  else
    let state := cipher.inner.reverse.foldl backward
      (addRoundKey block (cipher.roundKey cipher.rounds))
    .ok (addRoundKey ((invShiftRows state).map invSub) (cipher.roundKey 0))

def pkcs7Pad (data : Bytes) : Bytes :=
  let pad := BLOCK_SIZE - data.length % BLOCK_SIZE
  data ++ List.replicate pad (UInt8.ofNat pad)

def pkcs7Unpad (data : Bytes) : Except Error Bytes :=
  if data.isEmpty ∨ data.length % BLOCK_SIZE ≠ 0 then .error .partialPadding
  else
    let pad := (data.getLastD 0).toNat
    if ¬ (1 ≤ pad ∧ pad ≤ BLOCK_SIZE) ∨
        data.drop (data.length - pad) ≠ List.replicate pad (UInt8.ofNat pad) then
      .error .corruptPadding
    else .ok (data.take (data.length - pad))

def chain (cipher : AES) : Nat → Bytes → Bytes → Except Error Bytes
  | 0, _, _ => .ok []
  | blocks + 1, previous, plain => do
      let sealed ← cipher.encryptBlock (mask (plain.take BLOCK_SIZE) previous)
      return sealed ++ (← chain cipher blocks sealed (plain.drop BLOCK_SIZE))

def unchain (cipher : AES) : Nat → Bytes → Bytes → Except Error Bytes
  | 0, _, _ => .ok []
  | blocks + 1, previous, data => do
      let block := data.take BLOCK_SIZE
      let plain ← cipher.decryptBlock block
      return mask plain previous ++ (← unchain cipher blocks block (data.drop BLOCK_SIZE))

def cbcEncrypt (key data iv : Bytes) (pad : Bool) : Except Error Bytes := do
  if iv.length ≠ BLOCK_SIZE then throw (.ivLength iv.length)
  let plain := if pad then pkcs7Pad data else data
  if plain.length % BLOCK_SIZE ≠ 0 then throw .unpadded
  chain (← AES.new key) (plain.length / BLOCK_SIZE) iv plain

def cbcDecrypt (key data iv : Bytes) (pad : Bool) : Except Error Bytes := do
  if iv.length ≠ BLOCK_SIZE then throw (.ivLength iv.length)
  if data.isEmpty ∨ data.length % BLOCK_SIZE ≠ 0 then throw .partialBlock
  let out ← unchain (← AES.new key) (data.length / BLOCK_SIZE) iv data
  if pad then pkcs7Unpad out else return out

theorem sbox_whole : SBOX.length = 256 ∧ marks SBOX = 2 ^ 256 - 1 := by decide +kernel

theorem inv_sub_sub (byte : UInt8) : invSub (sub byte) = byte := by
  have once := nodup_of_marks sbox_whole.1 sbox_whole.2
  have inside : byte.toNat < SBOX.length := by
    rw [sbox_whole.1]
    exact byte.toNat_lt
  have here : SBOX[byte.toNat]? = some (sub byte) := by
    rw [sub, List.getD_eq_getElem?_getD, List.getElem?_eq_getElem inside]
    rfl
  have placed := @inverted_get SBOX.zipIdx (List.replicate 256 0) (sub byte) byte.toNat
    List.length_replicate (List.mk_mem_zipIdx_iff_getElem?.mpr here)
    (fun other member => by
      have there := List.mk_mem_zipIdx_iff_getElem?.mp member
      obtain ⟨known, found⟩ := List.getElem?_eq_some_iff.mp there
      obtain ⟨_, same⟩ := List.getElem?_eq_some_iff.mp here
      exact (once.getElem_inj_iff).mp (found.trans same.symm))
  rw [UInt8.ofNat_toNat] at placed
  exact placed

theorem map_inv_sub (state : Bytes) : (state.map sub).map invSub = state := by
  induction state with
  | nil => rfl
  | cons byte rest induction => rw [List.map_cons, List.map_cons, inv_sub_sub, induction]

theorem sixteen {state : Bytes} (size : state.length = 16) :
    ∃ s0 s1 s2 s3 s4 s5 s6 s7 s8 s9 s10 s11 s12 s13 s14 s15,
      state = [s0, s1, s2, s3, s4, s5, s6, s7, s8, s9, s10, s11, s12, s13, s14, s15] := by
  match state, size with
  | [s0, s1, s2, s3, s4, s5, s6, s7, s8, s9, s10, s11, s12, s13, s14, s15], _ =>
      exact ⟨s0, s1, s2, s3, s4, s5, s6, s7, s8, s9, s10, s11, s12, s13, s14, s15, rfl⟩

theorem shift_rows_shape (s0 s1 s2 s3 s4 s5 s6 s7 s8 s9 s10 s11 s12 s13 s14 s15 : UInt8) :
    shiftRows [s0, s1, s2, s3, s4, s5, s6, s7, s8, s9, s10, s11, s12, s13, s14, s15] =
      [s0, s5, s10, s15, s4, s9, s14, s3, s8, s13, s2, s7, s12, s1, s6, s11] := by
  have first : turnRow (fun row column => column.drop row ++ column.take row)
      [s0, s1, s2, s3, s4, s5, s6, s7, s8, s9, s10, s11, s12, s13, s14, s15] 1 =
      [s0, s5, s2, s3, s4, s9, s6, s7, s8, s13, s10, s11, s12, s1, s14, s15] := rfl
  have second : turnRow (fun row column => column.drop row ++ column.take row)
      [s0, s5, s2, s3, s4, s9, s6, s7, s8, s13, s10, s11, s12, s1, s14, s15] 2 =
      [s0, s5, s10, s3, s4, s9, s14, s7, s8, s13, s2, s11, s12, s1, s6, s15] := rfl
  rw [shiftRows, List.foldl_cons, first, List.foldl_cons, second]
  rfl

theorem inv_shift_rows_shape (s0 s1 s2 s3 s4 s5 s6 s7 s8 s9 s10 s11 s12 s13 s14 s15 : UInt8) :
    invShiftRows [s0, s5, s10, s15, s4, s9, s14, s3, s8, s13, s2, s7, s12, s1, s6, s11] =
      [s0, s1, s2, s3, s4, s5, s6, s7, s8, s9, s10, s11, s12, s13, s14, s15] := by
  have first : turnRow (fun row column => column.drop (4 - row) ++ column.take (4 - row))
      [s0, s5, s10, s15, s4, s9, s14, s3, s8, s13, s2, s7, s12, s1, s6, s11] 1 =
      [s0, s1, s10, s15, s4, s5, s14, s3, s8, s9, s2, s7, s12, s13, s6, s11] := rfl
  have second : turnRow (fun row column => column.drop (4 - row) ++ column.take (4 - row))
      [s0, s1, s10, s15, s4, s5, s14, s3, s8, s9, s2, s7, s12, s13, s6, s11] 2 =
      [s0, s1, s2, s15, s4, s5, s6, s3, s8, s9, s10, s7, s12, s13, s14, s11] := rfl
  rw [invShiftRows, List.foldl_cons, first, List.foldl_cons, second]
  rfl

theorem inv_shift_shift {state : Bytes} (size : state.length = 16) :
    invShiftRows (shiftRows state) = state := by
  obtain ⟨s0, s1, s2, s3, s4, s5, s6, s7, s8, s9, s10, s11, s12, s13, s14, s15, rfl⟩ := sixteen size
  rw [shift_rows_shape, inv_shift_rows_shape]

theorem shift_rows_length {state : Bytes} (size : state.length = 16) :
    (shiftRows state).length = 16 := by
  obtain ⟨s0, s1, s2, s3, s4, s5, s6, s7, s8, s9, s10, s11, s12, s13, s14, s15, rfl⟩ := sixteen size
  rw [shift_rows_shape]
  rfl

theorem mix_column_length (a : Bytes) : (mixColumn a).length = 4 := by
  simp only [mixColumn, List.length_map, List.length_range]

theorem mix_columns_length (state : Bytes) : (mixColumns state).length = 16 := by
  simp only [mixColumns, columns, List.length_flatMap, List.map_map, Function.comp_def,
    mix_column_length]
  rfl

theorem xtime_shift (a : UInt8) :
    xtime a = (a <<< 1) ^^^ (if a &&& 0x80 = 0 then 0 else 0x1B) := by
  revert a
  apply forall_byte
  decide +kernel

theorem xor_and (a b bits : UInt8) : (a ^^^ b) &&& bits = (a &&& bits) ^^^ (b &&& bits) := by
  apply UInt8.toBitVec_inj.mp
  apply BitVec.eq_of_getLsbD_eq
  intro index _
  simp only [UInt8.toBitVec_and, UInt8.toBitVec_xor, BitVec.getLsbD_and, BitVec.getLsbD_xor,
    Bool.and_xor_distrib_right]

theorem xtime_xor (a b : UInt8) : xtime (a ^^^ b) = xtime a ^^^ xtime b := by
  have high : ∀ a : UInt8, a &&& 0x80 = 0 ∨ a &&& 0x80 = 0x80 := by
    apply forall_byte
    decide +kernel
  have carry : ∀ a b : UInt8, a &&& 0x80 = 0 ∨ a &&& 0x80 = 0x80 → b &&& 0x80 = 0 ∨ b &&& 0x80 = 0x80 →
      (if (a ^^^ b) &&& 0x80 = 0 then (0 : UInt8) else 0x1B) =
        (if a &&& 0x80 = 0 then 0 else 0x1B) ^^^ (if b &&& 0x80 = 0 then 0 else 0x1B) := by
    intro a b ours theirs
    rw [xor_and]
    rcases ours with ours | ours
    · rcases theirs with theirs | theirs
      · rw [ours, theirs]
        decide
      · rw [ours, theirs]
        decide
    · rcases theirs with theirs | theirs
      · rw [ours, theirs]
        decide
      · rw [ours, theirs]
        decide
  rw [xtime_shift, xtime_shift, xtime_shift, UInt8.shiftLeft_xor, carry a b (high a) (high b)]
  ac_rfl

theorem mul_from_xor (turns : Nat) (out other a b : UInt8) (factor : Nat) :
    mulFrom turns (out ^^^ other) (a ^^^ b) factor =
      mulFrom turns out a factor ^^^ mulFrom turns other b factor := by
  induction turns generalizing out other a b factor with
  | zero => rfl
  | succ turns induction =>
      rw [mulFrom, mulFrom, mulFrom]
      by_cases none : factor = 0
      · rw [if_pos none, if_pos none, if_pos none]
      · rw [if_neg none, if_neg none, if_neg none, xtime_xor, ← induction]
        split_ifs
        · congr 1
          ac_rfl
        · rfl

theorem mul_xor (a b : UInt8) (factor : Nat) :
    mul (a ^^^ b) factor = mul a factor ^^^ mul b factor := by
  rw [mul, mul, mul, ← mul_from_xor, UInt8.xor_self]

theorem four {column : Bytes} (size : column.length = 4) : ∃ a b c d, column = [a, b, c, d] := by
  match column, size with
  | [a, b, c, d], _ => exact ⟨a, b, c, d, rfl⟩

theorem masked (a b c d e f g h : UInt8) :
    mask [a, b, c, d] [e, f, g, h] = [a ^^^ e, b ^^^ f, c ^^^ g, d ^^^ h] := rfl

theorem mix_column_mask {left right : Bytes} (size : left.length = 4) (same : right.length = 4) :
    mixColumn (mask left right) = mask (mixColumn left) (mixColumn right) := by
  obtain ⟨a, b, c, d, rfl⟩ := four size
  obtain ⟨e, f, g, h, rfl⟩ := four same
  have shape : ∀ a b c d : UInt8, mixColumn [a, b, c, d] =
      [a ^^^ (a ^^^ b ^^^ c ^^^ d) ^^^ xtime (a ^^^ b), b ^^^ (a ^^^ b ^^^ c ^^^ d) ^^^ xtime (b ^^^ c),
        c ^^^ (a ^^^ b ^^^ c ^^^ d) ^^^ xtime (c ^^^ d),
        d ^^^ (a ^^^ b ^^^ c ^^^ d) ^^^ xtime (d ^^^ a)] := fun _ _ _ _ => rfl
  simp only [masked, shape, xtime_xor]
  simp only [List.cons.injEq, and_true]
  refine ⟨?_, ?_, ?_, ?_⟩
  all_goals ac_rfl

theorem inv_mix_column_mask {left right : Bytes} (size : left.length = 4) (same : right.length = 4) :
    invMixColumn (mask left right) = mask (invMixColumn left) (invMixColumn right) := by
  obtain ⟨a, b, c, d, rfl⟩ := four size
  obtain ⟨e, f, g, h, rfl⟩ := four same
  have shape : ∀ a b c d : UInt8, invMixColumn [a, b, c, d] =
      [mul a 14 ^^^ mul b 11 ^^^ mul c 13 ^^^ mul d 9, mul b 14 ^^^ mul c 11 ^^^ mul d 13 ^^^ mul a 9,
        mul c 14 ^^^ mul d 11 ^^^ mul a 13 ^^^ mul b 9,
        mul d 14 ^^^ mul a 11 ^^^ mul b 13 ^^^ mul c 9] := fun _ _ _ _ => rfl
  simp only [masked, shape, mul_xor]
  simp only [List.cons.injEq, and_true]
  refine ⟨?_, ?_, ?_, ?_⟩
  all_goals ac_rfl

def Returns (column : Bytes) : Prop := invMixColumn (mixColumn column) = column

theorem Returns.mask {left right : Bytes} (size : left.length = 4) (same : right.length = 4)
    (ours : Returns left) (theirs : Returns right) : Returns (mask left right) := by
  rw [Returns, mix_column_mask size same, inv_mix_column_mask (mix_column_length _)
    (mix_column_length _), ours, theirs]

theorem single_returns (byte : UInt8) : Returns [byte, 0, 0, 0] ∧ Returns [0, byte, 0, 0] ∧
    Returns [0, 0, byte, 0] ∧ Returns [0, 0, 0, byte] := by
  revert byte
  apply forall_bits
  · unfold Returns
    decide +kernel
  · unfold Returns
    decide +kernel
  · intro left right ours theirs
    refine ⟨?_, ?_, ?_, ?_⟩
    · simpa only [masked, UInt8.xor_self] using ours.1.mask rfl rfl theirs.1
    · simpa only [masked, UInt8.xor_self] using ours.2.1.mask rfl rfl theirs.2.1
    · simpa only [masked, UInt8.xor_self] using ours.2.2.1.mask rfl rfl theirs.2.2.1
    · simpa only [masked, UInt8.xor_self] using ours.2.2.2.mask rfl rfl theirs.2.2.2

theorem column_returns {column : Bytes} (size : column.length = 4) : Returns column := by
  obtain ⟨a, b, c, d, rfl⟩ := four size
  have split : [a, b, c, d] =
      mask [a, 0, 0, 0] (mask [0, b, 0, 0] (mask [0, 0, c, 0] [0, 0, 0, d])) := by
    simp only [masked, UInt8.xor_zero, UInt8.zero_xor]
  rw [split]
  have last := (single_returns c).2.2.1.mask rfl rfl (single_returns d).2.2.2
  have rest := (single_returns b).2.1.mask rfl rfl last
  exact (single_returns a).1.mask rfl rfl rest

theorem columns_append {c0 c1 c2 c3 : Bytes} (first : c0.length = 4) (second : c1.length = 4)
    (third : c2.length = 4) (fourth : c3.length = 4) :
    columns (c0 ++ c1 ++ c2 ++ c3) = [c0, c1, c2, c3] := by
  obtain ⟨s0, s1, s2, s3, rfl⟩ := four first
  obtain ⟨s4, s5, s6, s7, rfl⟩ := four second
  obtain ⟨s8, s9, s10, s11, rfl⟩ := four third
  obtain ⟨s12, s13, s14, s15, rfl⟩ := four fourth
  rfl

theorem inv_mix_mix {state : Bytes} (size : state.length = 16) :
    invMixColumns (mixColumns state) = state := by
  obtain ⟨s0, s1, s2, s3, s4, s5, s6, s7, s8, s9, s10, s11, s12, s13, s14, s15, rfl⟩ := sixteen size
  have here : columns [s0, s1, s2, s3, s4, s5, s6, s7, s8, s9, s10, s11, s12, s13, s14, s15] =
      [[s0, s1, s2, s3], [s4, s5, s6, s7], [s8, s9, s10, s11], [s12, s13, s14, s15]] := rfl
  rw [mixColumns, here, List.flatMap_cons, List.flatMap_cons, List.flatMap_cons, List.flatMap_cons,
    List.flatMap_nil, List.append_nil, ← List.append_assoc, ← List.append_assoc, invMixColumns,
    columns_append (mix_column_length _) (mix_column_length _) (mix_column_length _)
      (mix_column_length _)]
  simp only [List.flatMap_cons, List.flatMap_nil]
  have each : ∀ a b c d : UInt8, invMixColumn (mixColumn [a, b, c, d]) = [a, b, c, d] :=
    fun a b c d => @column_returns [a, b, c, d] rfl
  rw [each, each, each, each]
  rfl

theorem next_word_length {nk : Nat} {words : List Bytes} (positive : 0 < nk)
    (enough : nk ≤ words.length) (four : ∀ word ∈ words, word.length = 4) :
    (nextWord nk words).length = 4 := by
  have held : ∀ index < words.length, (words.getD index []).length = 4 := by
    intro index inside
    rw [List.getD_eq_getElem?_getD, List.getElem?_eq_getElem inside]
    exact four _ (List.getElem_mem inside)
  have last := held (words.length - 1) (by omega)
  have back := held (words.length - nk) (by omega)
  rw [nextWord]
  dsimp only
  rw [mask, List.length_zipWith, back]
  split_ifs
  · simp only [List.length_set, List.length_map, List.length_append, List.length_drop,
      List.length_take, last]
    rfl
  · rw [List.length_map, last]
    rfl
  · rw [last]
    rfl

theorem schedule_words {nk more : Nat} {words : List Bytes} (positive : 0 < nk)
    (enough : nk ≤ words.length) (four : ∀ word ∈ words, word.length = 4) :
    (schedule nk more words).length = words.length + more ∧
      ∀ word ∈ schedule nk more words, word.length = 4 := by
  induction more generalizing words with
  | zero => exact ⟨rfl, four⟩
  | succ more induction =>
      have longer : (words ++ [nextWord nk words]).length = words.length + 1 := by
        rw [List.length_append, List.length_singleton]
      have grown : ∀ word ∈ words ++ [nextWord nk words], word.length = 4 := by
        intro word member
        rcases List.mem_append.mp member with before | newest
        · exact four word before
        · rw [List.mem_singleton.mp newest]
          exact next_word_length positive enough four
      obtain ⟨length, rest⟩ := induction (by rw [longer]; omega) grown
      rw [schedule]
      exact ⟨by rw [length, longer]; omega, rest⟩

theorem flatten_length {words : List Bytes} (four : ∀ word ∈ words, word.length = 4) :
    words.flatten.length = 4 * words.length := by
  induction words with
  | nil => rfl
  | cons word rest induction =>
      rw [List.forall_mem_cons] at four
      rw [List.flatten_cons, List.length_append, four.1, induction four.2, List.length_cons]
      omega

theorem expand_keys {key : Bytes} {nk rounds rnd : Nat} (positive : 0 < nk)
    (size : key.length = 4 * nk) (enough : nk ≤ 4 * (rounds + 1)) (inside : rnd ≤ rounds) :
    ((expand key rounds).getD rnd []).length = 16 := by
  have words : ∀ word ∈ (List.range nk).map fun i => (key.drop (4 * i)).take 4, word.length = 4 := by
    intro word member
    obtain ⟨i, small, rfl⟩ := List.mem_map.mp member
    have below := List.mem_range.mp small
    rw [List.length_take, List.length_drop]
    omega
  have count : key.length / 4 = nk := by omega
  have first : ((List.range nk).map fun i => (key.drop (4 * i)).take 4).length = nk := by
    rw [List.length_map, List.length_range]
  obtain ⟨length, four⟩ := @schedule_words nk (4 * (rounds + 1) - nk) _ positive first.ge words
  rw [first] at length
  rw [expand, count, List.getD_eq_getElem?_getD, List.getElem?_map, List.getElem?_range (by omega)]
  simp only [Option.map_some, Option.getD_some]
  rw [flatten_length, List.length_take, List.length_drop, length]
  · omega
  · intro word member
    exact four word (List.mem_of_mem_drop (List.mem_of_mem_take member))

/-- A key whose round keys are as long as a block. -/
structure AES.Sound (cipher : AES) : Prop where
  some_ : 0 < cipher.rounds
  keys : ∀ rnd ≤ cipher.rounds, (cipher.roundKey rnd).length = 16

theorem new_sound {key : Bytes} (size : key.length = 16 ∨ key.length = 24 ∨ key.length = 32) :
    ∃ cipher, AES.new key = .ok cipher ∧ cipher.Sound := by
  rcases size with size | size | size
  · refine ⟨⟨10, expand key 10⟩, by rw [AES.new, if_pos size], Nat.succ_pos _, fun rnd inside => ?_⟩
    exact expand_keys (by decide : 0 < 4) size (by decide) inside
  · refine ⟨⟨12, expand key 12⟩, ?_, Nat.succ_pos _, fun rnd inside => ?_⟩
    · rw [AES.new, if_neg (by omega), if_pos size]
    · exact expand_keys (by decide : 0 < 6) size (by decide) inside
  · refine ⟨⟨14, expand key 14⟩, ?_, Nat.succ_pos _, fun rnd inside => ?_⟩
    · rw [AES.new, if_neg (by omega), if_neg (by omega), if_pos size]
    · exact expand_keys (by decide : 0 < 8) size (by decide) inside

section Sound

variable {cipher : AES}

theorem AES.Sound.inner (sound : cipher.Sound) : ∀ key ∈ cipher.inner, key.length = 16 := by
  intro key member
  obtain ⟨turn, listed, rfl⟩ := List.mem_map.mp member
  have below := List.mem_range.mp listed
  exact sound.keys _ (by omega)

theorem forward_length (state : Bytes) {key : Bytes} (size : key.length = 16) :
    (forward state key).length = 16 := by
  have mixed := mix_columns_length (shiftRows (state.map sub))
  rw [forward, addRoundKey, mask_length (by rw [mixed, size]), mixed]

/-- What a round leaves, once its bytes are replaced and its rows are turned. -/
def turned (state : Bytes) : Bytes := shiftRows (state.map sub)

theorem turned_back {state : Bytes} (size : state.length = 16) :
    (invShiftRows (turned state)).map invSub = state := by
  rw [turned, inv_shift_shift (by rw [List.length_map, size]), map_inv_sub]

theorem turned_length {state : Bytes} (size : state.length = 16) : (turned state).length = 16 :=
  shift_rows_length (by rw [List.length_map, size])

theorem backward_forward {state key : Bytes} (size : state.length = 16) (same : key.length = 16) :
    backward (turned (forward state key)) key = turned state := by
  have mixed := mix_columns_length (turned state)
  have shape : forward state key = mask (mixColumns (turned state)) key := rfl
  rw [backward, turned_back (forward_length state same), shape, addRoundKey,
    mask_mask (by rw [mixed, same]), inv_mix_mix (turned_length size)]

theorem AES.Sound.block (sound : cipher.Sound) {block : Bytes} (size : block.length = 16) :
    ∃ sealed, cipher.encryptBlock block = .ok sealed ∧ sealed.length = 16 ∧
      cipher.decryptBlock sealed = .ok block := by
  have whole : block.length = BLOCK_SIZE := size
  have first := sound.keys 0 (Nat.zero_le _)
  have last := sound.keys cipher.rounds (Nat.le_refl _)
  have start : (mask block (cipher.roundKey 0)).length = 16 := by
    rw [mask_length (by rw [size, first]), size]
  have keeps : ∀ state : Bytes, ∀ key ∈ cipher.inner, state.length = 16 →
      (forward state key).length = 16 :=
    fun state key member _ => forward_length state (sound.inner key member)
  have inside := foldl_keeps keeps start
  have back := foldl_undone keeps
    (fun state key member size => backward_forward size (sound.inner key member)) start
  generalize state : cipher.inner.foldl forward (mask block (cipher.roundKey 0)) = after at inside back
  have length := turned_length inside
  refine ⟨mask (turned after) (cipher.roundKey cipher.rounds), ?_, ?_, ?_⟩
  · rw [AES.encryptBlock, if_neg (not_not.mpr whole), ← state]
    rfl
  · rw [mask_length (by rw [length, last]), length]
  · have long : (mask (turned after) (cipher.roundKey cipher.rounds)).length = BLOCK_SIZE := by
      rw [mask_length (by rw [length, last]), length]
      rfl
    rw [AES.decryptBlock, if_neg (not_not.mpr long), addRoundKey, mask_mask (by rw [length, last])]
    dsimp only
    rw [back, turned_back start, addRoundKey, mask_mask (by rw [size, first])]

theorem AES.Sound.chained (sound : cipher.Sound) {blocks : Nat} {previous plain : Bytes}
    (before : previous.length = 16) (size : plain.length = 16 * blocks) :
    ∃ sealed, chain cipher blocks previous plain = .ok sealed ∧ sealed.length = 16 * blocks ∧
      unchain cipher blocks previous sealed = .ok plain := by
  induction blocks generalizing previous plain with
  | zero =>
      rw [List.eq_nil_of_length_eq_zero size]
      exact ⟨[], rfl, rfl, rfl⟩
  | succ blocks induction =>
      have head : (plain.take BLOCK_SIZE).length = 16 := by
        rw [List.length_take, size, BLOCK_SIZE]
        omega
      have masked : (mask (plain.take BLOCK_SIZE) previous).length = 16 := by
        rw [mask_length (by rw [head, before]), head]
      obtain ⟨block, encrypted, length, decrypted⟩ := sound.block masked
      obtain ⟨rest, later, behind, undone⟩ := @induction block (plain.drop BLOCK_SIZE) length
        (by rw [List.length_drop, size, BLOCK_SIZE]; omega)
      have front : (block ++ rest).take BLOCK_SIZE = block := List.take_left' length
      have back : (block ++ rest).drop BLOCK_SIZE = rest := List.drop_left' length
      refine ⟨block ++ rest, ?_, ?_, ?_⟩
      · rw [chain, encrypted]
        simp only [bind, Except.bind, later]
        rfl
      · rw [List.length_append, length, behind]
        omega
      · rw [unchain, front, decrypted, back]
        simp only [bind, Except.bind, undone]
        rw [mask_mask (by rw [head, before])]
        exact congrArg _ (List.take_append_drop _ _)

end Sound

theorem pkcs7_pad_length (data : Bytes) :
    (pkcs7Pad data).length = 16 * (data.length / 16 + 1) := by
  rw [pkcs7Pad, List.length_append, List.length_replicate, BLOCK_SIZE]
  omega

theorem pkcs7_unpad_iff (padded data : Bytes) :
    pkcs7Unpad padded = .ok data ↔ padded = pkcs7Pad data := by
  constructor
  · intro returned
    rw [pkcs7Unpad] at returned
    by_cases broken : padded.isEmpty = true ∨ padded.length % BLOCK_SIZE ≠ 0
    · rw [if_pos broken] at returned
      cases returned
    rw [if_neg broken] at returned
    dsimp only at returned
    by_cases corrupt : ¬ (1 ≤ (padded.getLastD 0).toNat ∧ (padded.getLastD 0).toNat ≤ BLOCK_SIZE) ∨
        padded.drop (padded.length - (padded.getLastD 0).toNat) ≠
          List.replicate (padded.getLastD 0).toNat (UInt8.ofNat (padded.getLastD 0).toNat)
    · rw [if_pos corrupt] at returned
      cases returned
    rw [if_neg corrupt] at returned
    rw [not_or, not_not] at broken corrupt
    obtain ⟨some_, whole⟩ := broken
    obtain ⟨⟨positive, small⟩, tail⟩ := corrupt
    cases returned
    rw [List.isEmpty_iff, ← List.length_eq_zero_iff] at some_
    rw [BLOCK_SIZE] at whole small
    rw [not_not] at tail
    generalize (padded.getLastD 0).toNat = pad at positive small tail
    have long : padded.length = 16 * (padded.length / 16) := by omega
    have kept : (padded.take (padded.length - pad)).length = padded.length - pad := by
      rw [List.length_take]
      omega
    have same : BLOCK_SIZE - (padded.length - pad) % BLOCK_SIZE = pad := by
      rw [BLOCK_SIZE]
      omega
    rw [pkcs7Pad, kept, same, ← tail, List.take_append_drop]
  · rintro rfl
    have length := pkcs7_pad_length data
    have shape : ∃ pad, 1 ≤ pad ∧ pad ≤ 16 ∧ pkcs7Pad data = data ++ List.replicate pad (UInt8.ofNat pad) := by
      refine ⟨BLOCK_SIZE - data.length % BLOCK_SIZE, ?_, ?_, rfl⟩
      · rw [BLOCK_SIZE]
        omega
      · exact Nat.sub_le _ _
    obtain ⟨pad, positive, small, shape⟩ := shape
    have last : ((pkcs7Pad data).getLastD 0).toNat = pad := by
      obtain ⟨less, rfl⟩ := Nat.exists_eq_add_of_le' positive
      rw [shape, List.replicate_succ', ← List.append_assoc, List.getLastD_concat]
      exact UInt8.toNat_ofNat_of_lt' (by rw [UInt8.size]; omega)
    have cut : (pkcs7Pad data).length - pad = data.length := by
      rw [shape, List.length_append, List.length_replicate, Nat.add_sub_cancel]
    have usable : ¬ ((pkcs7Pad data).isEmpty = true ∨ (pkcs7Pad data).length % BLOCK_SIZE ≠ 0) := by
      rw [not_or, not_not, List.isEmpty_iff, ← List.length_eq_zero_iff, length]
      exact ⟨by omega, Nat.mul_mod_right _ _⟩
    have intact : ¬ (¬ (1 ≤ pad ∧ pad ≤ BLOCK_SIZE) ∨
        (pkcs7Pad data).drop data.length ≠ List.replicate pad (UInt8.ofNat pad)) := by
      rw [not_or, not_not, not_not, shape, List.drop_left]
      exact ⟨⟨positive, small⟩, rfl⟩
    rw [pkcs7Unpad, if_neg usable, last]
    dsimp only
    rw [cut, if_neg intact, shape, List.take_left]

/-- A message encrypted in a chain is decrypted, and is a whole number of blocks longer. -/
theorem cbc_returns {key iv : Bytes}
    (size : key.length = 16 ∨ key.length = 24 ∨ key.length = 32) (first : iv.length = 16)
    (data : Bytes) : ∃ sealed, cbcEncrypt key data iv true = .ok sealed ∧
      cbcDecrypt key sealed iv true = .ok data ∧ sealed.length = 16 * (data.length / 16 + 1) := by
  have vector : ¬ iv.length ≠ BLOCK_SIZE := not_not.mpr first
  have padded := pkcs7_pad_length data
  have blocks : (pkcs7Pad data).length / BLOCK_SIZE = data.length / 16 + 1 := by
    rw [padded, BLOCK_SIZE]
    omega
  have whole : (pkcs7Pad data).length % BLOCK_SIZE = 0 := by
    rw [padded]
    exact Nat.mul_mod_right _ _
  obtain ⟨cipher, made, sound⟩ := new_sound size
  obtain ⟨sealed, encrypted, length, decrypted⟩ := sound.chained first padded
  have count : sealed.length / BLOCK_SIZE = data.length / 16 + 1 := by
    rw [length, BLOCK_SIZE]
    omega
  have usable : ¬ (sealed.isEmpty = true ∨ sealed.length % BLOCK_SIZE ≠ 0) := by
    rw [not_or, not_not, List.isEmpty_iff, ← List.length_eq_zero_iff, length]
    exact ⟨by omega, Nat.mul_mod_right _ _⟩
  refine ⟨sealed, ?_, ?_, length⟩
  · rw [cbcEncrypt, made]
    simp only [if_neg vector, if_true, whole, ne_eq, not_true_eq_false, if_false, blocks]
    exact encrypted
  · have unpadded := (pkcs7_unpad_iff (pkcs7Pad data) data).mpr rfl
    rw [cbcDecrypt, made, if_neg vector, if_neg usable, count]
    simp only [bind, Except.bind, pure, Except.pure, decrypted]
    exact unpadded

/-- What is encrypted is decrypted, block by block and in a chain, and unpadding accepts
what was padded and nothing else. -/
theorem aes_undone :
    (∀ key : Bytes, key.length = 16 ∨ key.length = 24 ∨ key.length = 32 →
      (∀ block : Bytes, block.length = 16 → ∃ cipher sealed, AES.new key = .ok cipher ∧
        cipher.encryptBlock block = .ok sealed ∧ cipher.decryptBlock sealed = .ok block) ∧
      ∀ iv : Bytes, iv.length = 16 → ∀ data, ∃ sealed, cbcEncrypt key data iv true = .ok sealed ∧
        cbcDecrypt key sealed iv true = .ok data ∧
        sealed.length = 16 * (data.length / 16 + 1)) ∧
    ∀ padded data, pkcs7Unpad padded = .ok data ↔ padded = pkcs7Pad data := by
  refine ⟨fun key size => ⟨fun block long => ?_, fun iv first data => ?_⟩, pkcs7_unpad_iff⟩
  · obtain ⟨cipher, made, sound⟩ := new_sound size
    obtain ⟨sealed, encrypted, -, decrypted⟩ := sound.block long
    exact ⟨cipher, sealed, made, encrypted, decrypted⟩
  · exact cbc_returns size first data

theorem three_bytes_returned : ∃ sealed,
    cbcEncrypt (List.replicate 16 0) [1, 2, 3] (List.replicate 16 0) true = .ok sealed ∧
    cbcDecrypt (List.replicate 16 0) sealed (List.replicate 16 0) true = .ok [1, 2, 3] ∧
    sealed.length = 16 :=
  (aes_undone.1 (List.replicate 16 0) (.inl rfl)).2 (List.replicate 16 0) rfl [1, 2, 3]

end XRootDClient.Crypto.Aes
