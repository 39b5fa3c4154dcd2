import Mathlib.Data.List.Basic
import Mathlib.Tactic.Ring
import XRootDClient.Lib.BigEndian

/-!
# Pages and their checksums

The Castagnoli checksum, eight bytes at a time, and the paged transfers built on it: a
big-endian checksum in front of each page, the first page cut short where the data does
not start on a page's edge. What is packed is unpacked whole; what unpacks without a
complaint was packed, up to zeros that stand where one more checksum would.
-/

set_option autoImplicit false

namespace XRootDClient.Crypto

open Lib.BigEndian

def POLY : UInt32 := 0x82F63B78

def MASK : UInt32 := 0xFFFFFFFF

def shift (crc : UInt32) : UInt32 :=
  if crc &&& 1 = 1 then (crc >>> 1) ^^^ POLY else crc >>> 1

/-- `_T`: the first table shifts a byte out, each later one a further byte. -/
def table : Nat → UInt8 → UInt32
  | 0, byte => shift (shift (shift (shift (shift (shift (shift (shift byte.toUInt32)))))))
  | number + 1, byte =>
      let value := table number byte
      (value >>> 8) ^^^ table 0 value.toUInt8

/-- The loops of `_crc32c_py`: eight bytes at a time, then one by one. -/
def register (crc : UInt32) : Bytes → UInt32
  | b0 :: b1 :: b2 :: b3 :: b4 :: b5 :: b6 :: b7 :: rest =>
      let word := crc ^^^ (b0.toUInt32 ||| (b1.toUInt32 <<< 8) ||| (b2.toUInt32 <<< 16) |||
        (b3.toUInt32 <<< 24))
      register (table 7 word.toUInt8 ^^^ table 6 (word >>> 8).toUInt8 ^^^
        table 5 (word >>> 16).toUInt8 ^^^ table 4 (word >>> 24).toUInt8 ^^^ table 3 b4 ^^^
        table 2 b5 ^^^ table 1 b6 ^^^ table 0 b7) rest
  | byte :: rest => register (table 0 (crc ^^^ byte.toUInt32).toUInt8 ^^^ (crc >>> 8)) rest
  | [] => crc

/-- `crc32c(data)`. -/
def crc32c (data : Bytes) : UInt32 := register MASK data ^^^ MASK

def PAGE_SIZE : Nat := 4096

def firstPage (offset : Nat) : Nat :=
  if offset % PAGE_SIZE ≠ 0 then PAGE_SIZE - offset % PAGE_SIZE else PAGE_SIZE

def word (page : Bytes) : Bytes := encode 4 (crc32c page).toNat

def packLoop : Nat → Nat → Bytes → Bytes
  | 0, _, _ => []
  | turns + 1, head, data =>
      if data = [] then []
      else word (data.take head) ++ data.take head ++ packLoop turns PAGE_SIZE (data.drop head)

def packPages (data : Bytes) (offset : Nat) : Bytes :=
  packLoop data.length (firstPage offset) data

/-- The loop of `unpack_pages`: the data, and where the pages begin that fail. -/
def unpackLoop : Nat → Nat → Nat → Bytes → Bytes × List Nat
  | 0, _, _, _ => ([], [])
  | turns + 1, head, place, data =>
      if data = [] then ([], [])
      else
        let want := decode (data.take 4)
        let page := (data.drop 4).take head
        let (out, corrupt) :=
          unpackLoop turns PAGE_SIZE (place + page.length) (data.drop (4 + page.length))
        (page ++ out, if (crc32c page).toNat ≠ want then place :: corrupt else corrupt)

def unpackPages (data : Bytes) (offset : Nat) : Bytes × List Nat :=
  unpackLoop data.length (firstPage offset) offset data

def packedLength (size offset : Int) : Int :=
  if size ≤ 0 then 0
  else
    let head := (PAGE_SIZE : Int) - offset % PAGE_SIZE
    let rest := max (size - head) 0
    size + 4 * (1 + -(-rest / PAGE_SIZE))

section Loops

variable {head : Nat} {data : Bytes}

theorem first_page_pos (offset : Nat) : 0 < firstPage offset := by
  unfold firstPage PAGE_SIZE
  split_ifs <;> omega

@[simp] theorem word_length (page : Bytes) : (word page).length = 4 := encode_length 4 _

theorem decode_word (page : Bytes) : decode (word page) = (crc32c page).toNat := by
  apply decode_encode
  exact (crc32c page).toNat_lt

theorem pack_loop_enough {turns : Nat} (enough : data.length ≤ turns) (some : 0 < head) :
    packLoop turns head data = packLoop data.length head data := by
  induction turns using Nat.strong_induction_on generalizing head data with
  | _ turns induction =>
      cases data with
      | nil => cases turns <;> simp [packLoop]
      | cons byte rest =>
          obtain ⟨fewer, rfl⟩ : ∃ fewer, turns = fewer + 1 :=
            ⟨turns - 1, by rw [List.length_cons] at enough; omega⟩
          have shorter : ((byte :: rest).drop head).length ≤ rest.length := by
            rw [List.length_drop, List.length_cons]
            omega
          rw [List.length_cons] at enough ⊢
          rw [packLoop, packLoop, if_neg (List.cons_ne_nil _ _), if_neg (List.cons_ne_nil _ _),
            induction fewer (by omega) (by omega) (by decide)]
          by_cases same : rest.length = fewer
          · rw [same, induction fewer (by omega) (by omega) (by decide)]
          · rw [induction rest.length (by omega) shorter (by decide)]

def packed (head : Nat) (data : Bytes) : Bytes := packLoop data.length head data

theorem packed_nil (head : Nat) : packed head [] = [] := rfl

theorem packed_some (some : data ≠ []) (wide : 0 < head) :
    packed head data = word (data.take head) ++ (data.take head ++
      packed PAGE_SIZE (data.drop head)) := by
  cases data with
  | nil => exact absurd rfl some
  | cons byte rest =>
      have shorter : ((byte :: rest).drop head).length ≤ rest.length := by
        rw [List.length_drop, List.length_cons]
        omega
      rw [packed, List.length_cons, packLoop, if_neg some, pack_loop_enough shorter (by decide),
        List.append_assoc]
      rfl

theorem unpack_loop_enough {turns place : Nat} (enough : data.length ≤ turns) :
    unpackLoop turns head place data = unpackLoop data.length head place data := by
  induction turns using Nat.strong_induction_on generalizing head place data with
  | _ turns induction =>
      cases data with
      | nil => cases turns <;> simp [unpackLoop]
      | cons byte rest =>
          obtain ⟨fewer, rfl⟩ : ∃ fewer, turns = fewer + 1 :=
            ⟨turns - 1, by rw [List.length_cons] at enough; omega⟩
          have shorter (count : Nat) : ((byte :: rest).drop (4 + count)).length ≤ rest.length := by
            rw [List.length_drop, List.length_cons]
            omega
          rw [List.length_cons] at enough ⊢
          rw [unpackLoop, unpackLoop, if_neg (List.cons_ne_nil _ _),
            if_neg (List.cons_ne_nil _ _)]
          dsimp only
          have here := shorter ((List.drop 4 (byte :: rest)).take head).length
          rw [induction fewer (by omega) (by omega)]
          by_cases same : rest.length = fewer
          · rw [same, induction fewer (by omega) (by omega)]
          · rw [induction rest.length (by omega) here]

/-- What comes of pages of which the first is so long and starts here. -/
def unpacked (head place : Nat) (data : Bytes) : Bytes × List Nat :=
  unpackLoop data.length head place data

theorem unpacked_nil (head place : Nat) : unpacked head place [] = ([], []) := rfl

theorem unpacked_some (place : Nat) (some : data ≠ []) :
    unpacked head place data =
      let page := (data.drop 4).take head
      let rest := unpacked PAGE_SIZE (place + page.length) (data.drop (4 + page.length))
      (page ++ rest.1,
        if (crc32c page).toNat ≠ decode (data.take 4) then place :: rest.2 else rest.2) := by
  cases data with
  | nil => exact absurd rfl some
  | cons byte tail =>
      have shorter (count : Nat) : ((byte :: tail).drop (4 + count)).length ≤ tail.length := by
        rw [List.length_drop, List.length_cons]
        omega
      rw [unpacked, List.length_cons, unpackLoop, if_neg some]
      dsimp only
      rw [unpack_loop_enough (shorter _)]
      rfl

theorem take_page (data : Bytes) :
    (data.take head ++ packed PAGE_SIZE (data.drop head)).take head = data.take head := by
  by_cases short : data.length ≤ head
  · rw [List.drop_eq_nil_of_le short, packed_nil, List.append_nil, List.take_take, Nat.min_self]
  · have whole : (data.take head).length = head := by
      rw [List.length_take]
      omega
    rw [List.take_append_of_le_length (by omega), List.take_take, Nat.min_self]

theorem unpacked_packed (wide : 0 < head) (place : Nat) (data : Bytes) :
    unpacked head place (packed head data) = (data, []) := by
  induction size : data.length using Nat.strong_induction_on generalizing head place data with
  | _ size induction =>
      by_cases none : data = []
      · rw [none]
        rfl
      · have filled : data.length ≠ 0 := fun zero => none (List.length_eq_zero_iff.mp zero)
        rw [packed_some none wide, unpacked_some place (by simp [word, encode])]
        dsimp only
        rw [List.drop_left' (word_length _), List.take_left' (word_length _), take_page,
          Nat.add_comm, ← List.drop_drop, List.drop_left' (word_length _), List.drop_left,
          induction _ _ (by decide) _ _ rfl, decode_word, if_neg (by simp),
          List.take_append_drop]
        rw [List.length_drop]
        omega

def pages (head size : Nat) : Nat :=
  if size = 0 then 0 else 1 + (size - head + (PAGE_SIZE - 1)) / PAGE_SIZE

theorem packed_length (wide : 0 < head) (data : Bytes) :
    (packed head data).length = data.length + 4 * pages head data.length := by
  induction size : data.length using Nat.strong_induction_on generalizing head data with
  | _ size induction =>
      by_cases none : data = []
      · rw [← size, none]
        rfl
      · have filled : data.length ≠ 0 := fun zero => none (List.length_eq_zero_iff.mp zero)
        have later := induction (data.drop head).length (by rw [List.length_drop]; omega)
          (show 0 < PAGE_SIZE by decide) _ rfl
        rw [packed_some none wide, List.length_append, List.length_append, word_length, later,
          List.length_take, List.length_drop, size]
        unfold pages PAGE_SIZE
        split_ifs <;> omega

theorem packed_append (wide : 0 < head) {first : Bytes} (second : Bytes)
    (long : head ≤ first.length) (aligned : (first.length - head) % PAGE_SIZE = 0) :
    packed head (first ++ second) = packed head first ++ packed PAGE_SIZE second := by
  induction size : first.length using Nat.strong_induction_on generalizing head first with
  | _ size induction =>
      have some : first ≠ [] := by
        rintro rfl
        rw [List.length_nil] at long
        omega
      rw [packed_some some wide, packed_some (by simp [some]) wide,
        List.take_append_of_le_length long, List.drop_append_of_le_length long]
      by_cases last : first.length = head
      · rw [List.drop_eq_nil_of_le (Nat.le_of_eq last), packed_nil, List.nil_append]
        simp
      · have more : PAGE_SIZE ≤ (first.drop head).length := by
          rw [List.length_drop]
          unfold PAGE_SIZE at aligned ⊢
          omega
        have edge : ((first.drop head).length - PAGE_SIZE) % PAGE_SIZE = 0 := by
          rw [List.length_drop] at more ⊢
          unfold PAGE_SIZE at aligned more ⊢
          omega
        rw [induction _ (by rw [List.length_drop]; omega) (by decide) more edge rfl]
        simp

end Loops

theorem unpack_pack_pages (data : Bytes) (offset : Nat) :
    unpackPages (packPages data offset) offset = (data, []) :=
  unpacked_packed (first_page_pos offset) offset data

theorem pack_pages_length (data : Bytes) (offset : Nat) :
    ((packPages data offset).length : Int) = packedLength data.length offset := by
  have length := packed_length (first_page_pos offset) data
  change ((packed (firstPage offset) data).length : Int) = _
  rw [length]
  unfold pages packedLength firstPage PAGE_SIZE
  dsimp only
  split_ifs <;> omega

theorem packed_length_mono {size larger : Int} (offset : Int) (less : size ≤ larger) :
    packedLength size offset ≤ packedLength larger offset := by
  unfold packedLength PAGE_SIZE
  dsimp only
  split_ifs <;> omega

/-- Paged data is unpacked as it was packed, is as long as announced, and is packed part by
part where the parts meet on a page's edge. -/
theorem pages_round_trip :
    (∀ data offset, unpackPages (packPages data offset) offset = (data, [])) ∧
    (∀ data offset, ((packPages data offset).length : Int) = packedLength data.length offset) ∧
    ∀ first second offset, (offset + first.length) % PAGE_SIZE = 0 →
      packPages (first ++ second) offset =
        packPages first offset ++ packPages second (offset + first.length) := by
  refine ⟨fun data offset => ?_, fun data offset => ?_, fun first second offset edge => ?_⟩
  · exact unpack_pack_pages data offset
  · exact pack_pages_length data offset
  · by_cases none : first = []
    · rw [none]
      rfl
    · have filled : first.length ≠ 0 := fun zero => none (List.length_eq_zero_iff.mp zero)
      have next : firstPage (offset + first.length) = PAGE_SIZE := by
        rw [firstPage, edge]
        rfl
      change packed (firstPage offset) (first ++ second) =
        packed (firstPage offset) first ++ packed (firstPage (offset + first.length)) second
      rw [next]
      apply packed_append (first_page_pos offset)
      · unfold firstPage PAGE_SIZE at *
        split_ifs <;> omega
      · unfold firstPage PAGE_SIZE at *
        split_ifs <;> omega

theorem two_parts_packed :
    (100 + (List.replicate 3996 (7 : UInt8)).length) % PAGE_SIZE = 0 ∧
      packPages (List.replicate 3996 7 ++ [1, 2, 3]) 100 =
        packPages (List.replicate 3996 7) 100 ++
          packPages [1, 2, 3] (100 + (List.replicate 3996 (7 : UInt8)).length) := by
  have edge : (100 + (List.replicate 3996 (7 : UInt8)).length) % PAGE_SIZE = 0 := by
    rw [List.length_replicate]
    rfl
  exact ⟨edge, pages_round_trip.2.2 _ _ _ edge⟩

/-- A packed reply that ends on a page's edge, and one to four zeros behind it: a checksum,
or part of one, with no page to it. -/
def Stubbed (reply : Bytes) (offset : Nat) : Prop :=
  ∃ data count, 1 ≤ count ∧ count ≤ 4 ∧ (data = [] ∨ (offset + data.length) % PAGE_SIZE = 0) ∧
    reply = packPages data offset ++ List.replicate count 0

theorem word_matched {bytes page : Bytes} (whole : bytes.length = 4)
    (same : (crc32c page).toNat = decode bytes) : bytes = word page := by
  apply decode_injective
  · rw [whole, word_length]
  · rw [decode_word, same]

theorem crc_nil : (crc32c []).toNat = 0 := by decide

theorem take_drop_length (data : Bytes) (head : Nat) :
    data.take head ++ data.drop (data.take head).length = data := by
  rw [List.length_take]
  by_cases short : head ≤ data.length
  · rw [Nat.min_eq_left short, List.take_append_drop]
  · rw [Nat.min_eq_right (by omega), List.drop_length, List.append_nil,
      List.take_of_length_le (by omega)]

/-- Data in pages, the first so long, that ends where a page does. -/
def Edge (head : Nat) (data : Bytes) : Prop :=
  data = [] ∨ head ≤ data.length ∧ (data.length - head) % PAGE_SIZE = 0

/-- A reply that is this data packed, up to zeros with no page to them. -/
def Carries (head : Nat) (reply data : Bytes) : Prop :=
  reply = packed head data ∨ Edge head data ∧ ∃ count, 1 ≤ count ∧ count ≤ 4 ∧
    reply = packed head data ++ List.replicate count 0

section Clean

variable {head : Nat} {page rest data : Bytes}

theorem Carries.front (carries : Carries PAGE_SIZE rest data) (wide : 0 < head)
    (full : page.length = head) : Carries head (word page ++ (page ++ rest)) (page ++ data) := by
  have some : page ++ data ≠ [] := by
    intro none
    rw [(List.append_eq_nil_iff.mp none).1] at full
    exact absurd full (Nat.ne_of_lt wide)
  have shape : packed head (page ++ data) = word page ++ (page ++ packed PAGE_SIZE data) := by
    rw [packed_some some wide, List.take_left' full, List.drop_left' full]
  rcases carries with whole | ⟨edge, count, one, four, stub⟩
  · left
    rw [shape, whole]
  · right
    constructor
    · right
      rw [List.length_append, full]
      rcases edge with none | ⟨long, aligned⟩
      · rw [none]
        simp
      · constructor
        · omega
        · unfold PAGE_SIZE at long aligned ⊢
          omega
    · refine ⟨count, one, four, ?_⟩
      rw [shape, stub]
      simp

theorem Carries.last (some : page ≠ []) (short : page.length ≤ head) :
    Carries head (word page ++ page) page := by
  have wide : 0 < head := Nat.lt_of_lt_of_le (List.length_pos_of_ne_nil some) short
  left
  rw [packed_some some wide, List.take_of_length_le short, List.drop_eq_nil_of_le short, packed_nil,
    List.append_nil]

theorem Carries.stub {reply : Bytes} (some : reply ≠ []) (short : reply.length ≤ 4)
    (matched : decode reply = 0) : Carries head reply [] := by
  right
  constructor
  · exact .inl rfl
  · refine ⟨reply.length, List.length_pos_of_ne_nil some, short, ?_⟩
    rw [packed_nil, List.nil_append]
    apply decode_injective
    · rw [List.length_replicate]
    · rw [matched, decode_zeros]

end Clean

/-- What unpacks without a complaint was packed, or ends in zeros with no page to them. -/
theorem unpacked_clean {head : Nat} (wide : 0 < head) (place : Nat) (reply : Bytes)
    (clean : (unpacked head place reply).2 = []) :
    Carries head reply (unpacked head place reply).1 := by
  induction size : reply.length using Nat.strong_induction_on generalizing head place reply with
  | _ size induction =>
      by_cases none : reply = []
      · rw [none]
        exact .inl rfl
      · have filled := List.length_pos_of_ne_nil none
        rw [unpacked_some place none] at clean ⊢
        dsimp only at clean ⊢
        generalize cut : (reply.drop 4).take head = page at clean ⊢
        split_ifs at clean with matched
        rw [not_not] at matched
        by_cases bare : page = []
        · have short : reply.length ≤ 4 := by
            rw [bare, List.take_eq_nil_iff, List.drop_eq_nil_iff] at cut
            omega
          rw [bare, crc_nil, List.take_of_length_le short] at matched
          rw [bare, List.drop_eq_nil_of_le (by simpa using short), unpacked_nil]
          exact .stub none short matched.symm
        · have long : 4 < reply.length := by
            by_contra short
            apply bare
            rw [← cut, List.drop_eq_nil_of_le (by omega), List.take_nil]
          have front : reply.take 4 = word page :=
            word_matched (by rw [List.length_take]; omega) matched
          have shape : reply = word page ++ (page ++ reply.drop (4 + page.length)) := by
            rw [← front, ← List.drop_drop, ← cut, take_drop_length, List.take_append_drop]
          by_cases full : page.length = head
          · have later := induction _ (by rw [← size, List.length_drop]; omega)
              (show 0 < PAGE_SIZE by decide) (place + page.length) _ clean rfl
            have carried := Carries.front later wide full
            rw [← shape] at carried
            exact carried
          · have ends : reply.length - 4 ≤ page.length ∧ page.length ≤ head := by
              rw [← cut, List.length_take, List.length_drop] at full ⊢
              omega
            have ended : reply.drop (4 + page.length) = [] :=
              List.drop_eq_nil_of_le (by omega)
            rw [ended, unpacked_nil, List.append_nil]
            rw [ended, List.append_nil] at shape
            rw [shape]
            exact .last bare ends.2

theorem unpacked_stub {head : Nat} (wide : 0 < head) (place : Nat) {data : Bytes} {count : Nat}
    (edge : Edge head data) (one : 1 ≤ count) (four : count ≤ 4) :
    unpacked head place (packed head data ++ List.replicate count 0) = (data, []) := by
  induction size : data.length using Nat.strong_induction_on generalizing head place data with
  | _ size induction =>
      by_cases none : data = []
      · have some : List.replicate count (0 : UInt8) ≠ [] := by
          intro nothing
          rw [List.replicate_eq_nil_iff] at nothing
          omega
        have short : (List.replicate count (0 : UInt8)).length ≤ 4 := by
          rw [List.length_replicate]
          exact four
        rw [none, packed_nil, List.nil_append, unpacked_some place some]
        dsimp only
        rw [List.drop_eq_nil_of_le short, List.take_nil, List.take_of_length_le short,
          decode_zeros, crc_nil, List.length_nil, List.drop_eq_nil_of_le short, unpacked_nil]
        simp
      · obtain ⟨long, aligned⟩ := edge.resolve_left none
        have whole : (data.take head).length = head := by
          rw [List.length_take, Nat.min_eq_left long]
        have rest : Edge PAGE_SIZE (data.drop head) := by
          rw [Edge, List.drop_eq_nil_iff, List.length_drop]
          unfold PAGE_SIZE at aligned ⊢
          omega
        rw [packed_some none wide, List.append_assoc, List.append_assoc,
          unpacked_some place (by simp [word, encode])]
        dsimp only
        rw [List.drop_left' (word_length _), List.take_left' (word_length _),
          List.take_left' whole, Nat.add_comm, ← List.drop_drop,
          List.drop_left' (word_length _), List.drop_left,
          induction _ (by rw [← size, List.length_drop]; omega) (by decide) _ rest rfl,
          decode_word, if_neg (by simp), List.take_append_drop]

theorem edge_iff (offset : Nat) (data : Bytes) :
    Edge (firstPage offset) data ↔ data = [] ∨ (offset + data.length) % PAGE_SIZE = 0 := by
  unfold Edge
  apply or_congr_right'
  intro some
  have filled := List.length_pos_of_ne_nil some
  unfold firstPage PAGE_SIZE
  split_ifs <;> omega

/-- A reply that verifies was packed, unless it ends in one to four zeros where a page would
begin. -/
theorem verified_packed_iff (reply : Bytes) (offset : Nat) :
    ((unpackPages reply offset).2 = [] → reply = packPages (unpackPages reply offset).1 offset) ↔
      ¬Stubbed reply offset := by
  have wide := first_page_pos offset
  constructor
  · rintro packs ⟨data, count, one, four, aligned, shape⟩
    have read : unpackPages reply offset = (data, []) := by
      rw [shape]
      exact unpacked_stub wide offset ((edge_iff offset data).mpr aligned) one four
    rw [read, shape] at packs
    have gone := List.append_right_eq_self.mp (packs rfl)
    rw [List.replicate_eq_nil_iff] at gone
    omega
  · intro whole clean
    rcases unpacked_clean wide offset reply clean with packed | ⟨edge, count, one, four, shape⟩
    · exact packed
    · exact absurd ⟨_, count, one, four, (edge_iff offset _).mp edge, shape⟩ whole

/-- Two zeros verify as a reply, and are not what no data is packed as. -/
theorem zeros_verify :
    ¬∀ reply offset, (unpackPages reply offset).2 = [] →
      reply = packPages (unpackPages reply offset).1 offset := by
  intro packs
  have same := packs [0, 0] 0 (by decide)
  revert same
  decide

end XRootDClient.Crypto
