import XRootDClient.Lib.XxHash
import XRootDClient.Root.Compression

/-!
# The checksum is XXH64

`_xxh64` works on integers without a bound and masks some of its steps. What it comes
to is XXH64 with the seed zero: a masked value is the word of what it masks, and what
is left unmasked in between is masked before anything but a sum, a product or an
exclusive or is taken of it.
-/

set_option autoImplicit false

namespace XRootDClient.Root.Compression

open Lib Lib.BigEndian Lib.Extent Lib.XxHash

theorem and_m64 (value : Nat) : value &&& m64 = (BitVec.ofNat 64 value).toNat := by
  rw [m64, Nat.and_two_pow_sub_one_eq_mod, BitVec.toNat_ofNat]

theorem rot_word (word : Word) {count : Nat} (small : count < 64) :
    rot word.toNat count = (word.rotateLeft count).toNat := by
  have right : word.toNat >>> (64 - count) &&& m64 = word.toNat >>> (64 - count) := by
    rw [m64, Nat.and_two_pow_sub_one_eq_mod, Nat.mod_eq_of_lt]
    rw [Nat.shiftRight_eq_div_pow]
    exact (Nat.div_le_self _ _).trans_lt word.isLt
  rw [rot, Nat.and_or_distrib_right, right, BitVec.toNat_rotateLeft, Nat.mod_eq_of_lt small, m64,
    Nat.and_two_pow_sub_one_eq_mod]

theorem ofNat_p1 : BitVec.ofNat 64 p1 = prime1 := rfl
theorem ofNat_p2 : BitVec.ofNat 64 p2 = prime2 := rfl
theorem ofNat_p3 : BitVec.ofNat 64 p3 = prime3 := rfl
theorem ofNat_p4 : BitVec.ofNat 64 p4 = prime4 := rfl
theorem ofNat_p5 : BitVec.ofNat 64 p5 = prime5 := rfl

theorem ofNat_word (word : Word) : BitVec.ofNat 64 word.toNat = word := by
  rw [BitVec.ofNat_toNat, BitVec.setWidth_eq]

theorem round_word (acc word : Word) :
    round acc.toNat word.toNat = (XxHash.round acc word).toNat := by
  rw [round, and_m64, and_m64, rot_word _ (by decide)]
  rw [BitVec.ofNat_mul, BitVec.ofNat_add, BitVec.ofNat_mul, ofNat_word, ofNat_word, ofNat_word,
    ofNat_p1, ofNat_p2]
  rfl

theorem merged_word (acc word : Word) :
    merged acc.toNat word.toNat = (XxHash.merge acc word).toNat := by
  rw [merged, and_m64, and_m64, rot_word _ (by decide)]
  rw [BitVec.ofNat_add, BitVec.ofNat_mul, BitVec.ofNat_xor, BitVec.ofNat_mul, BitVec.ofNat_mul, ofNat_word,
    ofNat_word, ofNat_word, ofNat_p1, ofNat_p2, ofNat_p4]
  simp only [XxHash.merge, XxHash.round, BitVec.ofNat_eq_ofNat, BitVec.zero_add]

theorem fresh_word (word : Word) :
    (rot ((word.toNat * p2) &&& m64) 31 * p1) &&& m64 = (XxHash.round 0 word).toNat := by
  rw [and_m64, and_m64, rot_word _ (by decide)]
  rw [BitVec.ofNat_mul, BitVec.ofNat_mul, ofNat_word, ofNat_word, ofNat_p1, ofNat_p2]
  simp only [XxHash.round, BitVec.ofNat_eq_ofNat, BitVec.zero_add]

theorem turned_word (word : Word) {count : Nat} (small : count < 64) (factor term : Nat) :
    (rot word.toNat count * factor + term) &&& m64 =
      (word.rotateLeft count * BitVec.ofNat 64 factor + BitVec.ofNat 64 term).toNat := by
  rw [rot_word _ small, and_m64, BitVec.ofNat_add, BitVec.ofNat_mul, ofNat_word]

theorem product_word (word : Word) (factor : Nat) :
    (word.toNat * factor) &&& m64 = (word * BitVec.ofNat 64 factor).toNat := by
  rw [and_m64, BitVec.ofNat_mul, ofNat_word]

theorem of_little_append (front back : Bytes) :
    ofLittle (front ++ back) = ofLittle front + 256 ^ front.length * ofLittle back := by
  rw [ofLittle, List.reverse_append, decode_append, List.length_reverse, Nat.mul_comm, Nat.add_comm]
  rfl

theorem of_little_lt (bytes : Bytes) : ofLittle bytes < 256 ^ bytes.length := by
  have below := decode_lt bytes.reverse
  rw [List.length_reverse] at below
  exact below

theorem of_little_drop {bytes : Bytes} {count : Nat} (inside : count ≤ bytes.length) :
    ofLittle bytes >>> (8 * count) = ofLittle (bytes.drop count) := by
  have length : (bytes.take count).length = count := List.length_take_of_le inside
  have below := of_little_lt (bytes.take count)
  rw [length] at below
  rw [Nat.shiftRight_eq_div_pow, Nat.pow_mul]
  conv =>
    lhs
    rw [← List.take_append_drop count bytes, of_little_append, length]
  rw [Nat.add_mul_div_left _ _ (Nat.pow_pos (by decide)), Nat.div_eq_of_lt below, Nat.zero_add]

theorem of_little_mask (bytes : Bytes) :
    ofLittle bytes &&& m64 = ofLittle (bytes.take 8) := by
  rw [m64, Nat.and_two_pow_sub_one_eq_mod]
  by_cases long : 8 ≤ bytes.length
  · have length : (bytes.take 8).length = 8 := List.length_take_of_le long
    have below := of_little_lt (bytes.take 8)
    rw [length] at below
    conv =>
      lhs
      rw [← List.take_append_drop 8 bytes, of_little_append, length]
    exact (Nat.add_mul_mod_self_left _ (256 ^ 8) _).trans (Nat.mod_eq_of_lt below)
  · have below := of_little_lt bytes
    rw [List.take_of_length_le (by omega), Nat.mod_eq_of_lt]
    exact below.trans_le (Nat.pow_le_pow_right (by decide) (by omega : bytes.length ≤ 8))

theorem of_little_lane {bytes : Bytes} (short : bytes.length ≤ 8) :
    ofLittle bytes = (lane bytes).toNat := by
  rw [lane, BitVec.toNat_ofNat, Nat.mod_eq_of_lt]
  · rfl
  · exact (of_little_lt bytes).trans_le (Nat.pow_le_pow_right (by decide) short)

def Lanes.of (accs : Accumulators) : Lanes :=
  ⟨accs.acc1.toNat, accs.acc2.toNat, accs.acc3.toNat, accs.acc4.toNat⟩

theorem stripe_word {data : Bytes} {pos : Nat} (inside : pos + 32 ≤ data.length)
    (accs : Accumulators) :
    stripe data (.of accs) pos = .of (XxHash.stripe accs ((data.drop pos).take 32)) := by
  have length : (fetch data pos 32).length = 32 := by
    rw [fetch, List.length_take, List.length_drop]
    omega
  have second := of_little_drop (by omega : 8 ≤ (fetch data pos 32).length)
  have third := of_little_drop (by omega : 16 ≤ (fetch data pos 32).length)
  have fourth := of_little_drop (by omega : 24 ≤ (fetch data pos 32).length)
  have whole : ((fetch data pos 32).drop 24).take 8 = (fetch data pos 32).drop 24 := by
    apply List.take_of_length_le
    rw [List.length_drop]
    omega
  have eight : ∀ bytes : Bytes, ofLittle (bytes.take 8) = (lane (bytes.take 8)).toNat := by
    intro bytes
    exact of_little_lane (List.length_take_le _ _)
  rw [stripe, second, third, fourth, of_little_mask, of_little_mask, of_little_mask, eight, eight,
    eight, ← whole, eight]
  simp only [Lanes.of, round_word]
  rfl

theorem stripes_word (data : Bytes) (count pos : Nat) (enough : pos + 32 * count ≤ data.length)
    (few : data.length < pos + 32 * count + 32) (accs : Accumulators) :
    ((List.range' pos count 32).foldl (stripe data) (.of accs) =
        .of (XxHash.stripes accs (data.drop pos)).1) ∧
      (XxHash.stripes accs (data.drop pos)).2 = data.drop (pos + 32 * count) := by
  induction count generalizing pos accs with
  | zero =>
      rw [XxHash.stripes, if_neg (by rw [List.length_drop]; omega)]
      exact ⟨rfl, rfl⟩
  | succ count induction =>
      have inner := induction (pos + 32) (by omega) (by omega)
        (XxHash.stripe accs ((data.drop pos).take 32))
      rw [List.range'_succ, List.foldl_cons, stripe_word (by omega), XxHash.stripes,
        if_pos (by rw [List.length_drop]; omega), List.drop_drop, inner.1, inner.2]
      exact ⟨rfl, by congr 1; omega⟩

theorem converge_word (accs : Accumulators) :
    [accs.acc1.toNat, accs.acc2.toNat, accs.acc3.toNat, accs.acc4.toNat].foldl merged
      ((rot accs.acc1.toNat 1 + rot accs.acc2.toNat 7 + rot accs.acc3.toNat 12 +
        rot accs.acc4.toNat 18) &&& m64) = (converge accs).toNat := by
  rw [rot_word _ (by decide), rot_word _ (by decide), rot_word _ (by decide),
    rot_word _ (by decide), and_m64, BitVec.ofNat_add, BitVec.ofNat_add, BitVec.ofNat_add,
    ofNat_word, ofNat_word, ofNat_word, ofNat_word, List.foldl_cons, merged_word, List.foldl_cons,
    merged_word, List.foldl_cons, merged_word, List.foldl_cons, merged_word, List.foldl_nil]
  rfl

theorem p5_word : p5 = prime5.toNat := rfl

theorem start_lanes :
    (⟨(p1 + p2) &&& m64, p2, 0, 2 ^ 64 - p1⟩ : Lanes) = .of (start 0) := by
  rfl

theorem stripes_hash (data : Bytes) :
    (stripes data).1 =
        (if 32 ≤ data.length then converge (XxHash.stripes (start 0) data).1 else prime5).toNat ∧
      data.drop (stripes data).2 =
        if 32 ≤ data.length then (XxHash.stripes (start 0) data).2 else data := by
  rw [stripes]
  split_ifs with long
  · have positions : (List.range (data.length / 32)).map (32 * ·) =
        List.range' 0 (data.length / 32) 32 := by
      apply List.ext_getElem
      · simp
      · intro index _ _
        simp
    obtain ⟨lanes, rest⟩ := stripes_word data (data.length / 32) 0 (by omega) (by omega) (start 0)
    rw [List.drop_zero] at lanes rest
    rw [Nat.zero_add] at rest
    dsimp only
    rw [positions, start_lanes, lanes, rest]
    refine ⟨?_, rfl⟩
    exact converge_word _
  · exact ⟨p5_word, List.drop_zero⟩

theorem eights_word (data : Bytes) (acc : Word) (pos : Nat) :
    (eights data acc.toNat pos).1 = (tail8 acc (data.drop pos)).1.toNat ∧
      data.drop (eights data acc.toNat pos).2 = (tail8 acc (data.drop pos)).2 := by
  -- a lane of eight bytes for every turn
  induction turns : data.length - pos using Nat.strong_induction_on generalizing acc pos with
  | _ turns induction =>
      rw [eights, tail8]
      by_cases more : pos + 8 ≤ data.length
      · have word : ofLittle (fetch data pos 8) = (lane ((data.drop pos).take 8)).toNat :=
          of_little_lane (List.length_take_le _ _)
        have next_ : (rot (acc.toNat ^^^ ((rot ((ofLittle (fetch data pos 8) * p2) &&& m64) 31 * p1)
            &&& m64)) 27 * p1 + p4) &&& m64 =
            ((acc ^^^ XxHash.round 0 (lane ((data.drop pos).take 8))).rotateLeft 27 * prime1 +
              prime4).toNat := by
          rw [word, fresh_word, ← BitVec.toNat_xor, turned_word _ (by decide), ofNat_p1, ofNat_p4]
        rw [if_pos more, if_pos (by rw [List.length_drop]; omega)]
        dsimp only
        rw [next_, List.drop_drop]
        exact induction _ (by omega) _ _ rfl
      · rw [if_neg more, if_neg (by rw [List.length_drop]; omega)]
        exact ⟨rfl, rfl⟩

theorem four_word (data : Bytes) (acc : Word) (pos : Nat) :
    (four data acc.toNat pos).1 = (tail4 acc (data.drop pos)).1.toNat ∧
      data.drop (four data acc.toNat pos).2 = (tail4 acc (data.drop pos)).2 := by
  rw [four, tail4]
  by_cases more : pos + 4 ≤ data.length
  · have word : ofLittle (fetch data pos 4) = (lane ((data.drop pos).take 4)).toNat :=
      of_little_lane ((List.length_take_le _ _).trans (by decide))
    rw [if_pos more, if_pos (by rw [List.length_drop]; omega)]
    dsimp only
    rw [word, product_word, ← BitVec.toNat_xor, turned_word _ (by decide), ofNat_p1, ofNat_p2,
      ofNat_p3, List.drop_drop]
    exact ⟨rfl, rfl⟩
  · rw [if_neg more, if_neg (by rw [List.length_drop]; omega)]
    exact ⟨rfl, rfl⟩

theorem ones_word (acc : Word) (byte : UInt8) : ones acc.toNat byte = (tail1 acc byte).toNat := by
  have word : byte.toNat = (lane [byte]).toNat := by
    rw [← of_little_lane (by simp)]
    simp [ofLittle, decode]
  have turned := turned_word (acc ^^^ lane [byte] * prime5) (by decide : 11 < 64) p1 0
  rw [Nat.add_zero, ofNat_p1, BitVec.add_zero] at turned
  rw [ones, word, product_word, ← BitVec.toNat_xor, ofNat_p5, turned]
  rfl

theorem foldl_ones_word (rest : Bytes) (acc : Word) :
    rest.foldl ones acc.toNat = (rest.foldl tail1 acc).toNat := by
  induction rest generalizing acc with
  | nil => rfl
  | cons byte rest induction => rw [List.foldl_cons, List.foldl_cons, ones_word, induction]

theorem avalanche_word (acc : Word) : avalanche acc.toNat = (XxHash.avalanche acc).toNat := by
  rw [avalanche, XxHash.avalanche]
  rw [← BitVec.toNat_ushiftRight, ← BitVec.toNat_xor, product_word, ← BitVec.toNat_ushiftRight,
    ← BitVec.toNat_xor, product_word, ← BitVec.toNat_ushiftRight, ← BitVec.toNat_xor, ofNat_p2,
    ofNat_p3]

/-- `_xxh64` is XXH64 with the seed zero. -/
theorem xxh64_is_xxh64 (data : Bytes) : xxh64 data = (XxHash.hash 0 data).toNat := by
  obtain ⟨value, rest⟩ := stripes_hash data
  have seeded : (if 32 ≤ data.length then
      (converge (XxHash.stripes (start 0) data).1, (XxHash.stripes (start 0) data).2)
      else ((0 : Word) + prime5, data)) =
      (if 32 ≤ data.length then converge (XxHash.stripes (start 0) data).1 else prime5,
        if 32 ≤ data.length then (XxHash.stripes (start 0) data).2 else data) := by
    split_ifs
    · rfl
    · rfl
  unfold xxh64 XxHash.hash
  rw [seeded]
  dsimp only
  rw [← rest]
  generalize (if 32 ≤ data.length then converge (XxHash.stripes (start 0) data).1 else prime5) =
    word at value
  have summed : ((stripes data).1 + data.length) &&& m64 =
      (word + BitVec.ofNat 64 data.length).toNat := by
    rw [value, and_m64, BitVec.ofNat_add, ofNat_word]
  rw [summed]
  obtain ⟨eight, behind⟩ := eights_word data (word + BitVec.ofNat 64 data.length) (stripes data).2
  rw [eight, ← behind]
  obtain ⟨four_, last⟩ := four_word data
    (tail8 (word + BitVec.ofNat 64 data.length) (data.drop (stripes data).2)).1
    (eights data (word + BitVec.ofNat 64 data.length).toNat (stripes data).2).2
  rw [four_, last, foldl_ones_word, avalanche_word]

end XRootDClient.Root.Compression
