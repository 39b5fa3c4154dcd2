import Mathlib.Data.List.Basic
import Mathlib.Tactic.Ring

/-!
Character strings as lists of code points, with the byte codec and the few
string operations a protocol decoder needs. Decoding never fails: every maximal
ill-formed piece becomes one replacement character, as a decoder in replacing
mode does.
-/

set_option autoImplicit false

namespace XRootDClient.Lib

abbrev Text := List Char

section Quantifiers

variable (text : List Char) (holds : Char → Prop) [DecidablePred holds]

/-- What holds of every character of a text is decided along the text. -/
instance (priority := 2000) decidableAllChars : Decidable (∀ char ∈ text, holds char) :=
  List.decidableBAll holds text

instance (priority := 2000) decidableSomeChar : Decidable (∃ char ∈ text, holds char) :=
  List.decidableBEx holds text

end Quantifiers

instance : LawfulBEq Text := List.instLawfulBEq

def str (literal : String) : Text := literal.toList

namespace Text

def encodeUtf8 (text : Text) : List UInt8 := text.flatMap String.utf8EncodeChar

def replacement : Char := Char.ofNat 0xFFFD

private def within (low high : Nat) (byte : UInt8) : Bool :=
  low ≤ byte.toNat && byte.toNat ≤ high

private def low (byte : UInt8) : Nat := byte.toNat % 64

/-- The range the second byte of a three-byte sequence may take. -/
private def secondOfThree (lead second : UInt8) : Bool :=
  if lead = 0xE0 then within 0xA0 0xBF second
  else if lead = 0xED then within 0x80 0x9F second
  else within 0x80 0xBF second

/-- The range the second byte of a four-byte sequence may take. -/
private def secondOfFour (lead second : UInt8) : Bool :=
  if lead = 0xF0 then within 0x90 0xBF second
  else if lead = 0xF4 then within 0x80 0x8F second
  else within 0x80 0xBF second

/-- Strict UTF-8 where it is well formed, one replacement character for each
maximal ill-formed piece elsewhere. -/
def decodeUtf8 : List UInt8 → Text
  | [] => []
  | lead :: rest =>
      if lead.toNat < 0x80 then Char.ofNat lead.toNat :: decodeUtf8 rest
      else if within 0xC2 0xDF lead then
        match rest with
        | second :: rest =>
            if within 0x80 0xBF second then
              Char.ofNat ((lead.toNat - 0xC0) * 64 + low second) :: decodeUtf8 rest
            else replacement :: decodeUtf8 (second :: rest)
        | [] => [replacement]
      else if within 0xE0 0xEF lead then
        match rest with
        | second :: third :: rest =>
            if secondOfThree lead second then
              if within 0x80 0xBF third then
                Char.ofNat ((lead.toNat - 0xE0) * 4096 + low second * 64 + low third) ::
                  decodeUtf8 rest
              else replacement :: decodeUtf8 (third :: rest)
            else replacement :: decodeUtf8 (second :: third :: rest)
        | [second] =>
            if secondOfThree lead second then [replacement]
            else replacement :: decodeUtf8 [second]
        | [] => [replacement]
      else if within 0xF0 0xF4 lead then
        match rest with
        | second :: third :: fourth :: rest =>
            if secondOfFour lead second then
              if within 0x80 0xBF third then
                if within 0x80 0xBF fourth then
                  Char.ofNat ((lead.toNat - 0xF0) * 262144 + low second * 4096 +
                    low third * 64 + low fourth) :: decodeUtf8 rest
                else replacement :: decodeUtf8 (fourth :: rest)
              else replacement :: decodeUtf8 (third :: fourth :: rest)
            else replacement :: decodeUtf8 (second :: third :: fourth :: rest)
        | [second, third] =>
            if secondOfFour lead second then
              if within 0x80 0xBF third then [replacement]
              else replacement :: decodeUtf8 [third]
            else replacement :: decodeUtf8 [second, third]
        | [second] =>
            if secondOfFour lead second then [replacement]
            else replacement :: decodeUtf8 [second]
        | [] => [replacement]
      else replacement :: decodeUtf8 rest

section Sequences

variable {lead second third fourth : UInt8} (rest : List UInt8)

private theorem within_iff {low high : Nat} {byte : UInt8} :
    within low high byte = true ↔ low ≤ byte.toNat ∧ byte.toNat ≤ high := by
  rw [within, Bool.and_eq_true, decide_eq_true_iff, decide_eq_true_iff]

private theorem decode_one (first : lead.toNat < 0x80) :
    decodeUtf8 (lead :: rest) = Char.ofNat lead.toNat :: decodeUtf8 rest := by
  rw [decodeUtf8.eq_def]
  exact if_pos first

private theorem decode_two (first : within 0xC2 0xDF lead = true)
    (next : within 0x80 0xBF second = true) :
    decodeUtf8 (lead :: second :: rest) =
      Char.ofNat ((lead.toNat - 0xC0) * 64 + low second) :: decodeUtf8 rest := by
  have range := within_iff.mp first
  rw [decodeUtf8, if_neg (by omega), if_pos first]
  simp only [if_pos next]

private theorem decode_three (first : within 0xE0 0xEF lead = true)
    (next : secondOfThree lead second = true) (last : within 0x80 0xBF third = true) :
    decodeUtf8 (lead :: second :: third :: rest) =
      Char.ofNat ((lead.toNat - 0xE0) * 4096 + low second * 64 + low third) :: decodeUtf8 rest := by
  have range := within_iff.mp first
  have wide : ¬within 0xC2 0xDF lead = true := by
    rw [within_iff]
    omega
  rw [decodeUtf8, if_neg (by omega), if_neg wide, if_pos first]
  simp only [if_pos next, if_pos last]

private theorem decode_four (first : within 0xF0 0xF4 lead = true)
    (next : secondOfFour lead second = true) (later : within 0x80 0xBF third = true)
    (last : within 0x80 0xBF fourth = true) :
    decodeUtf8 (lead :: second :: third :: fourth :: rest) =
      Char.ofNat ((lead.toNat - 0xF0) * 262144 + low second * 4096 + low third * 64 + low fourth) ::
        decodeUtf8 rest := by
  have range := within_iff.mp first
  have wide : ¬within 0xC2 0xDF lead = true := by
    rw [within_iff]
    omega
  have wider : ¬within 0xE0 0xEF lead = true := by
    rw [within_iff]
    omega
  rw [decodeUtf8, if_neg (by omega), if_neg wide, if_neg wider, if_pos first]
  simp only [if_pos next, if_pos later, if_pos last]

end Sequences

private theorem byte_toNat {value : Nat} (small : value < 256) : (UInt8.ofNat value).toNat = value := by
  rw [UInt8.toNat_ofNat']
  exact Nat.mod_eq_of_lt small

private theorem byte_eq_iff {value : Nat} (small : value < 256) (byte : UInt8) :
    UInt8.ofNat value = byte ↔ value = byte.toNat := by
  rw [← UInt8.toNat_inj, byte_toNat small]

theorem decode_char (char : Char) (rest : List UInt8) :
    decodeUtf8 (String.utf8EncodeChar char ++ rest) = char :: decodeUtf8 rest := by
  have valid : char.val.toNat < 0xD800 ∨
      (0xDFFF < char.val.toNat ∧ char.val.toNat < 0x110000) := char.valid
  have same : Char.ofNat char.val.toNat = char := Char.ofNat_toNat char
  unfold String.utf8EncodeChar
  dsimp only
  generalize char.val.toNat = code at valid same
  split_ifs with one two three
  · rw [List.singleton_append, decode_one _ (by rw [byte_toNat (by omega)]; omega),
      byte_toNat (by omega), same]
  · rw [List.cons_append, List.singleton_append, decode_two, low, byte_toNat (by omega),
      byte_toNat (by omega), ← same]
    · congr 2
      omega
    · rw [within_iff, byte_toNat (by omega)]
      omega
    · rw [within_iff, byte_toNat (by omega)]
      omega
  · rw [List.cons_append, List.cons_append, List.singleton_append, decode_three, low, low,
      byte_toNat (by omega), byte_toNat (by omega), byte_toNat (by omega), ← same]
    · congr 2
      omega
    · rw [within_iff, byte_toNat (by omega)]
      omega
    · unfold secondOfThree
      split_ifs with lowest surrogate
      · rw [byte_eq_iff (by omega)] at lowest
        have zero : code / 4096 % 16 = 0 := by simpa using lowest
        rw [within_iff, byte_toNat (by omega)]
        omega
      · rw [byte_eq_iff (by omega)] at surrogate
        have top : code / 4096 % 16 + 0xe0 = 0xed := surrogate
        rw [within_iff, byte_toNat (by omega)]
        omega
      · rw [within_iff, byte_toNat (by omega)]
        omega
    · rw [within_iff, byte_toNat (by omega)]
      omega
  · rw [List.cons_append, List.cons_append, List.cons_append, List.singleton_append, decode_four,
      low, low, low, byte_toNat (by omega), byte_toNat (by omega), byte_toNat (by omega),
      byte_toNat (by omega), ← same]
    · congr 2
      omega
    · rw [within_iff, byte_toNat (by omega)]
      omega
    · unfold secondOfFour
      split_ifs with lowest highest
      · rw [byte_eq_iff (by omega)] at lowest
        have zero : code / 262144 % 8 = 0 := by simpa using lowest
        rw [within_iff, byte_toNat (by omega)]
        omega
      · rw [byte_eq_iff (by omega)] at highest
        have top : code / 262144 % 8 + 0xf0 = 0xf4 := highest
        rw [within_iff, byte_toNat (by omega)]
        omega
      · rw [within_iff, byte_toNat (by omega)]
        omega
    · rw [within_iff, byte_toNat (by omega)]
      omega
    · rw [within_iff, byte_toNat (by omega)]
      omega

theorem decode_encode (text : Text) : decodeUtf8 (encodeUtf8 text) = text := by
  induction text with
  | nil => rw [encodeUtf8, List.flatMap_nil, decodeUtf8]
  | cons char rest induction =>
      rw [encodeUtf8, List.flatMap_cons, decode_char, ← encodeUtf8, induction]

theorem nul_of_byte {char : Char} (zero : (0 : UInt8) ∈ String.utf8EncodeChar char) :
    char = Char.ofNat 0 := by
  have same : Char.ofNat char.val.toNat = char := Char.ofNat_toNat char
  have bytes : ∀ value : Nat, value < 256 → (0 : UInt8) = UInt8.ofNat value → value = 0 := by
    intro value small zero
    exact (byte_eq_iff small 0).mp zero.symm
  unfold String.utf8EncodeChar at zero
  dsimp only at zero
  generalize char.val.toNat = code at same zero
  split_ifs at zero <;>
    simp only [List.mem_cons, List.not_mem_nil, or_false] at zero
  · rw [← same, bytes code (by omega) zero]
  · rcases zero with zero | zero <;> exact absurd (bytes _ (by omega) zero) (by omega)
  · rcases zero with zero | zero | zero <;> exact absurd (bytes _ (by omega) zero) (by omega)
  · rcases zero with zero | zero | zero | zero <;>
      exact absurd (bytes _ (by omega) zero) (by omega)

theorem encode_no_nul {text : Text} (absent : Char.ofNat 0 ∉ text) : (0 : UInt8) ∉ encodeUtf8 text := by
  intro zero
  obtain ⟨char, member, byte⟩ := List.mem_flatMap.mp zero
  exact absent (nul_of_byte byte ▸ member)

theorem encode_until_nul {text : Text} (absent : Char.ofNat 0 ∉ text) (rest : List UInt8) :
    (encodeUtf8 text ++ 0 :: rest).takeWhile (· ≠ 0) = encodeUtf8 text := by
  have bare : ∀ byte ∈ encodeUtf8 text, decide (byte ≠ 0) = true := by
    intro byte member
    apply decide_eq_true
    intro zero
    exact encode_no_nul absent (zero ▸ member)
  rw [List.takeWhile_append_of_pos bare]
  simp

theorem encode_length_le (text : Text) : text.length ≤ (encodeUtf8 text).length := by
  induction text with
  | nil => exact Nat.zero_le _
  | cons char rest induction =>
      have size := Char.utf8Size_pos char
      rw [encodeUtf8, List.flatMap_cons, List.length_append, String.length_utf8EncodeChar,
        ← encodeUtf8, List.length_cons]
      omega

theorem encode_length_iff (text : Text) :
    (encodeUtf8 text).length = text.length ↔ ∀ char ∈ text, char.toNat < 0x80 := by
  induction text with
  | nil => simp [encodeUtf8]
  | cons char rest induction =>
      have size := Char.utf8Size_pos char
      have longer := encode_length_le rest
      have single : char.utf8Size = 1 ↔ char.toNat < 0x80 := by
        rw [Char.utf8Size_eq_one_iff]
        exact ⟨fun low => Nat.lt_succ_of_le low, fun low => Nat.le_of_lt_succ low⟩
      rw [List.forall_mem_cons, ← induction, ← single, encodeUtf8, List.flatMap_cons,
        List.length_append, String.length_utf8EncodeChar, ← encodeUtf8, List.length_cons]
      omega

def isSpace (char : Char) : Bool :=
  let code := char.toNat
  (0x09 ≤ code && code ≤ 0x0D) || (0x1C ≤ code && code ≤ 0x20) || code == 0x85 ||
    code == 0xA0 || code == 0x1680 || (0x2000 ≤ code && code ≤ 0x200A) ||
    code == 0x2028 || code == 0x2029 || code == 0x202F || code == 0x205F || code == 0x3000

def strip (text : Text) : Text :=
  ((text.dropWhile isSpace).reverse.dropWhile isSpace).reverse

/-- `text.partition(mark)`: the part before the first mark, whether there was
one, and the part after it. -/
def partition (mark : Char) (text : Text) : Text × Bool × Text :=
  let head := text.takeWhile (· ≠ mark)
  match text.dropWhile (· ≠ mark) with
  | [] => (head, false, [])
  | _ :: rest => (head, true, rest)

theorem partition_self (mark : Char) (rest : Text) :
    partition mark (mark :: rest) = ([], true, rest) := by
  simp [partition]

theorem partition_cons {mark char : Char} (other : char ≠ mark) (rest : Text) :
    partition mark (char :: rest) = (char :: (partition mark rest).1, (partition mark rest).2) := by
  unfold partition
  rw [List.takeWhile_cons_of_pos (by simpa using other),
    List.dropWhile_cons_of_pos (by simpa using other)]
  split <;> rfl

theorem partition_append {mark : Char} {head : Text} (bare : mark ∉ head) (tail : Text) :
    partition mark (head ++ tail) = (head ++ (partition mark tail).1, (partition mark tail).2) := by
  induction head with
  | nil => rfl
  | cons char rest induction =>
      rw [List.mem_cons, not_or] at bare
      rw [List.cons_append, partition_cons (Ne.symm bare.1), induction bare.2]
      rfl

theorem partition_found {mark : Char} {head : Text} (marked : mark ∈ head) (tail : Text) :
    partition mark (head ++ tail) =
      ((partition mark head).1, true, (partition mark head).2.2 ++ tail) := by
  induction head with
  | nil => exact absurd marked List.not_mem_nil
  | cons char rest induction =>
      by_cases here : char = mark
      · rw [here, List.cons_append, partition_self, partition_self]
      · have later : mark ∈ rest := (List.mem_cons.mp marked).resolve_left (Ne.symm here)
        rw [List.cons_append, partition_cons here, partition_cons here, induction later]

def ofNat (value : Nat) : Text := Nat.toDigits 10 value

def ofInt : Int → Text
  | .ofNat value => ofNat value
  | .negSucc value => '-' :: ofNat (value + 1)

/-- A number in lower-case hexadecimal, zero-filled to `width`. -/
def ofHex (width value : Nat) : Text := (Nat.toDigits 16 value).leftpad width '0'

def join (separator : Text) : List Text → Text
  | [] => []
  | [only] => only
  | first :: rest => first ++ separator ++ join separator rest

end Text

end XRootDClient.Lib
