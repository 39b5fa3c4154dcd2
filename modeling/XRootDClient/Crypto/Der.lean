import XRootDClient.Lib.Base128
import XRootDClient.Lib.Decimal
import XRootDClient.Lib.Minimal
import XRootDClient.Lib.Octets
import XRootDClient.Lib.TwosComplement

/-!
# A reader of DER

Tags, lengths and contents, one after the other, and the two primitive types that are
decoded. The reader takes more than DER has: lengths, integers and the numbers of an
identifier written with more bytes than needed, and it reads the first number of an
identifier from one byte only. Where none of these occur it is as strict as it says.
-/

set_option autoImplicit false

namespace XRootDClient.Crypto.Der

open Lib Lib.BigEndian Lib.Octets Lib.Base128

inductive Error
  | noTag
  | multiByteTag
  | noLength
  | indefinite
  | unlikely (count : Nat)
  | lengthPastEnd
  | truncated (claims available : Nat)
  | primitive (tag : UInt8)
  | notInteger (tag : UInt8)
  | emptyInteger
  | notOid (tag : UInt8)
  | emptyOid
  | midArc
  deriving DecidableEq

def TAG_INTEGER : UInt8 := 0x02

def TAG_OID : UInt8 := 0x06

structure Element where
  tag : UInt8
  value : Bytes
  deriving DecidableEq

def readLength (data : Bytes) (pos : Nat) : Except Error (Nat × Nat) :=
  match data[pos]? with
  | none => .error .noLength
  | some first =>
      let pos := pos + 1
      if first.toNat < 0x80 then .ok (first.toNat, pos)
      else
        let count := (first &&& 0x7F).toNat
        if count = 0 then .error .indefinite
        else if 4 < count then .error (.unlikely count)
        else if data.length < pos + count then .error .lengthPastEnd
        else .ok (decode ((data.drop pos).take count), pos + count)

def parse (data : Bytes) (pos : Nat) : Except Error (Element × Nat) :=
  match data[pos]? with
  | none => .error .noTag
  | some tag =>
      if tag &&& 0x1F = 0x1F then .error .multiByteTag
      else
        match readLength data (pos + 1) with
        | .error error => .error error
        | .ok (length, pos) =>
            let end_ := pos + length
            if data.length < end_ then .error (.truncated length (data.length - pos))
            else .ok (⟨tag, (data.drop pos).take length⟩, end_)

theorem read_length_advances {data : Bytes} {pos length next : Nat}
    (read : readLength data pos = .ok (length, next)) : pos < next := by
  rw [readLength] at read
  cases found : data[pos]? with
  | none => rw [found] at read; cases read
  | some first =>
      rw [found] at read
      dsimp only at read
      split_ifs at read <;> cases read <;> omega

theorem parse_advances {data : Bytes} {pos next : Nat} {element : Element}
    (parsed : parse data pos = .ok (element, next)) : pos < next := by
  rw [parse] at parsed
  cases found : data[pos]? with
  | none => rw [found] at parsed; cases parsed
  | some tag =>
      rw [found] at parsed
      dsimp only at parsed
      cases measured : readLength data (pos + 1) with
      | error error =>
          rw [measured] at parsed
          split_ifs at parsed
      | ok pair =>
          have later := read_length_advances measured
          rw [measured] at parsed
          dsimp only at parsed
          split_ifs at parsed
          cases parsed
          omega

def parseFrom (data : Bytes) (pos : Nat) : Except Error (List Element) :=
  if pos < data.length then
    match _parsed : parse data pos with
    | .error error => .error error
    | .ok (element, next) =>
        match parseFrom data next with
        | .error error => .error error
        | .ok rest => .ok (element :: rest)
  else .ok []
termination_by data.length - pos
decreasing_by
  have later := parse_advances _parsed
  omega

def parseAll (data : Bytes) : Except Error (List Element) := parseFrom data 0

def Element.children (element : Element) : Except Error (List Element) :=
  if element.tag &&& 0x20 = 0 then .error (.primitive element.tag) else parseAll element.value

def readInteger (element : Element) : Except Error Int :=
  if element.tag ≠ TAG_INTEGER then .error (.notInteger element.tag)
  else if element.value = [] then .error .emptyInteger
  else .ok (TwosComplement.read element.value)

def arcs : Nat → List Text → Bytes → Except Error (List Text)
  | _, parts, [] => .ok parts
  | value, parts, byte :: rest =>
      let value := (value <<< 7) ||| (byte &&& 0x7F).toNat
      if byte &&& 0x80 = 0 then arcs 0 (parts ++ [Text.ofNat value]) rest
      else if rest = [] then .error .midArc
      else arcs value parts rest

def oidString (element : Element) : Except Error Text :=
  if element.tag ≠ TAG_OID then .error (.notOid element.tag)
  else
    match element.value with
    | [] => .error .emptyOid
    | first :: rest =>
        let top := min (first.toNat / 40) 2
        match arcs 0 [Text.ofNat top, Text.ofNat (first.toNat - 40 * top)] rest with
        | .error error => .error error
        | .ok parts => .ok ((str ".").intercalate parts)

/-- What the bytes of a definite length in four bytes or fewer declare. -/
def Declares (lengthBytes : Bytes) (length : Nat) : Prop :=
  match lengthBytes with
  | [] => False
  | [first] => first.toNat < 128 ∧ length = first.toNat
  | first :: digits =>
      first.toNat = 128 + digits.length ∧ digits.length ≤ 4 ∧ length = decode digits

structure Field where
  tag : UInt8
  lengthBytes : Bytes
  value : Bytes

/-- An element with a tag of one byte, a definite length and all of its content. -/
def Field.Whole (field : Field) : Prop :=
  field.tag &&& 0x1F ≠ 0x1F ∧ Declares field.lengthBytes field.value.length

/-- A length of more bytes than it needs: its number begins with a zero byte, or would
have gone into one. -/
def Field.Redundant (field : Field) : Prop :=
  2 ≤ field.lengthBytes.length ∧
    ((field.lengthBytes.drop 1).head? = some 0 ∨ decode (field.lengthBytes.drop 1) < 128)

def Field.bytes (field : Field) : Bytes := field.tag :: (field.lengthBytes ++ field.value)

def Field.element (field : Field) : Element := ⟨field.tag, field.value⟩

theorem low_bits (byte : UInt8) : (byte &&& 0x7F).toNat = byte.toNat % 128 := by
  rw [UInt8.toNat_and]
  exact Nat.and_two_pow_sub_one_eq_mod byte.toNat 7

theorem drop_parted {data rest : Bytes} {pos : Nat} {byte : UInt8}
    (parted : data.drop pos = byte :: rest) :
    data[pos]? = some byte ∧ data.drop (pos + 1) = rest := by
  constructor
  · rw [← List.head?_drop, parted]
    rfl
  · rw [← List.tail_drop, parted]
    rfl

theorem drop_found {data : Bytes} {pos : Nat} {byte : UInt8} (found : data[pos]? = some byte) :
    data.drop pos = byte :: data.drop (pos + 1) := by
  obtain ⟨bound, same⟩ := List.getElem?_eq_some_iff.mp found
  rw [List.drop_eq_getElem_cons bound, same]

theorem read_length_iff {data : Bytes} {pos length next : Nat} :
    readLength data pos = .ok (length, next) ↔
      ∃ lengthBytes, Declares lengthBytes length ∧
        data.drop pos = lengthBytes ++ data.drop next ∧ next = pos + lengthBytes.length := by
  constructor
  · intro read
    rw [readLength] at read
    cases found : data[pos]? with
    | none => rw [found] at read; cases read
    | some first =>
        have front := drop_found found
        rw [found] at read
        dsimp only at read
        by_cases short : first.toNat < 0x80
        · rw [if_pos short] at read
          cases read
          exact ⟨[first], ⟨short, rfl⟩, front, rfl⟩
        · rw [if_neg short, low_bits] at read
          split_ifs at read with zero many past
          cases read
          have below := first.toNat_lt
          have size : ((data.drop (pos + 1)).take (first.toNat % 128)).length =
              first.toNat % 128 := by
            rw [List.length_take, List.length_drop]
            omega
          refine ⟨first :: (data.drop (pos + 1)).take (first.toNat % 128), ?_, ?_, ?_⟩
          · generalize (data.drop (pos + 1)).take (first.toNat % 128) = digits at size
            cases digits with
            | nil => exact absurd size.symm zero
            | cons digit others => exact ⟨by omega, by omega, rfl⟩
          · have later : data.drop (pos + 1 + first.toNat % 128) =
                (data.drop (pos + 1)).drop (first.toNat % 128) := List.drop_drop.symm
            rw [front, List.cons_append, later, List.take_append_drop]
          · rw [List.length_cons, size]
            omega
  · rintro ⟨lengthBytes, declares, parted, rfl⟩
    match lengthBytes, declares with
    | [first], ⟨short, same⟩ =>
        obtain ⟨found, -⟩ := drop_parted parted
        rw [readLength, found, same]
        exact if_pos short
    | first :: digit :: others, ⟨size, most, same⟩ =>
        obtain ⟨found, -⟩ := drop_parted parted
        have rest : data.drop (pos + 1) = (digit :: others) ++
            data.drop (pos + (first :: digit :: others).length) := (drop_parted parted).2
        have count : first.toNat % 128 = (digit :: others).length := by
          rw [size]
          rw [List.length_cons] at most ⊢
          omega
        have room : pos + 1 + (digit :: others).length ≤ data.length := by
          have lengths := congrArg List.length rest
          simp only [List.length_drop, List.length_append, List.length_cons] at lengths ⊢
          omega
        have cut : (data.drop (pos + 1)).take (digit :: others).length = digit :: others := by
          rw [rest]
          exact List.take_left
        rw [readLength, found]
        dsimp only
        rw [low_bits, count, cut, if_neg (by omega),
          if_neg (List.length_cons ▸ Nat.succ_ne_zero _), if_neg (Nat.not_lt.mpr most),
          if_neg (Nat.not_lt.mpr room), same]
        congr 2
        simp only [List.length_cons]
        omega

theorem parse_iff {data : Bytes} {pos next : Nat} {element : Element} :
    parse data pos = .ok (element, next) ↔
      ∃ field : Field, field.Whole ∧ data.drop pos = field.bytes ++ data.drop next ∧
        next = pos + field.bytes.length ∧ element = field.element := by
  constructor
  · intro parsed
    rw [parse] at parsed
    cases found : data[pos]? with
    | none => rw [found] at parsed; cases parsed
    | some tag =>
        rw [found] at parsed
        dsimp only at parsed
        cases measured : readLength data (pos + 1) with
        | error error =>
            rw [measured] at parsed
            split_ifs at parsed
        | ok pair =>
            obtain ⟨length, start⟩ := pair
            obtain ⟨lengthBytes, declares, parted, place⟩ := read_length_iff.mp measured
            rw [measured] at parsed
            dsimp only at parsed
            split_ifs at parsed with multiByte past
            cases parsed
            have size : ((data.drop start).take length).length = length := by
              rw [List.length_take, List.length_drop]
              omega
            have later : data.drop (start + length) = (data.drop start).drop length :=
              List.drop_drop.symm
            refine ⟨⟨tag, lengthBytes, (data.drop start).take length⟩, ⟨multiByte, ?_⟩, ?_, ?_, rfl⟩
            · rwa [size]
            · rw [drop_found found, parted, Field.bytes, later, List.cons_append,
                List.append_assoc, List.take_append_drop]
            · rw [Field.bytes, List.length_cons, List.length_append, size, place]
              dsimp only
              omega
  · rintro ⟨field, ⟨oneByte, declares⟩, parted, rfl, rfl⟩
    rw [Field.bytes, List.cons_append, List.append_assoc] at parted
    obtain ⟨found, rest⟩ := drop_parted parted
    have behind : data.drop (pos + 1 + field.lengthBytes.length) =
        field.value ++ data.drop (pos + field.bytes.length) := by
      have later : data.drop (pos + 1 + field.lengthBytes.length) =
          (data.drop (pos + 1)).drop field.lengthBytes.length := List.drop_drop.symm
      rw [later, rest]
      exact List.drop_left
    have measured : readLength data (pos + 1) =
        .ok (field.value.length, pos + 1 + field.lengthBytes.length) := by
      refine read_length_iff.mpr ⟨field.lengthBytes, declares, ?_, rfl⟩
      rw [behind, rest]
      rfl
    have whole : pos + field.bytes.length =
        pos + 1 + field.lengthBytes.length + field.value.length := by
      rw [Field.bytes, List.length_cons, List.length_append]
      omega
    have room : pos + 1 + field.lengthBytes.length + field.value.length ≤ data.length := by
      have lengths := congrArg List.length rest
      change _ = (field.lengthBytes ++
        (field.value ++ data.drop (pos + field.bytes.length))).length at lengths
      rw [whole] at lengths
      simp only [List.length_drop, List.length_append] at lengths
      have bound : pos < data.length := by
        by_contra past
        rw [List.getElem?_eq_none (Nat.not_lt.mp past)] at found
        cases found
      omega
    have cut : (data.drop (pos + 1 + field.lengthBytes.length)).take field.value.length =
        field.value := by
      rw [behind]
      exact List.take_left
    rw [parse, found]
    dsimp only
    rw [if_neg oneByte, measured]
    dsimp only
    rw [if_neg (Nat.not_lt.mpr room), cut, whole]
    rfl

theorem parse_from_iff {data : Bytes} {pos : Nat} {elements : List Element} :
    parseFrom data pos = .ok elements ↔
      ∃ fields : List Field, (∀ field ∈ fields, field.Whole) ∧
        data.drop pos = fields.flatMap Field.bytes ∧ elements = fields.map Field.element := by
  constructor
  · intro parsed
    induction remaining : data.length - pos using Nat.strongRecOn generalizing pos elements with
    | ind remaining induction =>
        rw [parseFrom] at parsed
        split at parsed
        case isFalse past =>
            cases parsed
            exact ⟨[], fun _ member => absurd member List.not_mem_nil,
              List.drop_eq_nil_of_le (Nat.not_lt.mp past), rfl⟩
        case isTrue inside =>
            split at parsed
            case h_1 => cases parsed
            case h_2 element next found =>
                have later := parse_advances found
                cases rest : parseFrom data next with
                | error error => rw [rest] at parsed; cases parsed
                | ok others =>
                    rw [rest] at parsed
                    cases parsed
                    obtain ⟨field, whole, parted, -, rfl⟩ := parse_iff.mp found
                    obtain ⟨fields, wholes, behind, rfl⟩ :=
                      induction (data.length - next) (by omega) rest rfl
                    refine ⟨field :: fields, List.forall_mem_cons.mpr ⟨whole, wholes⟩, ?_, rfl⟩
                    rw [List.flatMap_cons, parted, behind]
  · rintro ⟨fields, wholes, parted, rfl⟩
    induction fields generalizing pos with
    | nil =>
        rw [parseFrom, if_neg (Nat.not_lt.mpr (List.drop_eq_nil_iff.mp parted))]
        rfl
    | cons field fields induction =>
        obtain ⟨whole, others⟩ := List.forall_mem_cons.mp wholes
        rw [List.flatMap_cons] at parted
        have behind : data.drop (pos + field.bytes.length) = fields.flatMap Field.bytes := by
          have later : data.drop (pos + field.bytes.length) =
              (data.drop pos).drop field.bytes.length := List.drop_drop.symm
          rw [later, parted]
          exact List.drop_left
        have found : parse data pos = .ok (field.element, pos + field.bytes.length) :=
          parse_iff.mpr ⟨field, whole, by rw [behind, parted], rfl, rfl⟩
        have inside : pos < data.length := by
          by_contra past
          rw [List.drop_eq_nil_of_le (Nat.not_lt.mp past)] at parted
          cases parted
        rw [parseFrom, if_pos inside]
        split
        case h_1 error raised => rw [found] at raised; cases raised
        case h_2 element next parsed =>
            rw [found] at parsed
            cases parsed
            rw [induction others behind]
            rfl

theorem parse_all_iff {data : Bytes} {elements : List Element} :
    parseAll data = .ok elements ↔
      ∃ fields : List Field, (∀ field ∈ fields, field.Whole) ∧
        data = fields.flatMap Field.bytes ∧ elements = fields.map Field.element := by
  rw [parseAll, parse_from_iff, List.drop_zero]

def derLength (length : Nat) : Bytes :=
  if length < 128 then [UInt8.ofNat length]
  else UInt8.ofNat (128 + Minimal.width length) :: Minimal.toBytes length

def Element.encoded (element : Element) : Bytes :=
  element.tag :: (derLength element.value.length ++ element.value)

/-- A declared length is no shorter than DER writes it, and longer just where it is
redundant. -/
theorem declared {field : Field} (whole : field.Whole) :
    (field.Redundant → field.element.encoded.length < field.bytes.length) ∧
      (¬ field.Redundant → field.element.encoded = field.bytes) := by
  obtain ⟨-, declares⟩ := whole
  have sizes : field.element.encoded.length < field.bytes.length ↔
      (derLength field.value.length).length < field.lengthBytes.length := by
    rw [Element.encoded, Field.bytes, Field.element]
    simp only [List.length_cons, List.length_append]
    omega
  have same : derLength field.value.length = field.lengthBytes →
      field.element.encoded = field.bytes := by
    intro known
    rw [Element.encoded, Field.bytes, Field.element, known]
  rw [sizes, Field.Redundant]
  match lengthBytes_eq : field.lengthBytes, declares with
  | [first], ⟨short, length⟩ =>
      constructor
      · rintro ⟨long, -⟩
        exact absurd long (Nat.not_succ_le_self 1)
      · intro _
        apply same
        rw [lengthBytes_eq, derLength, length, if_pos short, UInt8.ofNat_toNat]
  | first :: digit :: others, ⟨marked, most, length⟩ =>
      have two : 2 ≤ (first :: digit :: others).length :=
        Nat.succ_le_succ (Nat.succ_le_succ (Nat.zero_le _))
      constructor
      · rintro ⟨-, zero | small⟩
        · have digit_zero : digit = 0 := Option.some.inj zero
          have fewer := Minimal.to_bytes_fewer others
          rw [Minimal.to_bytes_length] at fewer
          rw [length, digit_zero, derLength]
          split
          · exact Nat.lt_of_lt_of_le Nat.one_lt_two two
          · rw [List.length_cons, List.length_cons, Minimal.to_bytes_length]
            exact Nat.succ_lt_succ fewer
        · have short : decode (digit :: others) < 128 := small
          rw [length, derLength, if_pos short]
          exact Nat.lt_of_lt_of_le Nat.one_lt_two two
      · intro needed
        apply same
        have large : ¬ decode (digit :: others) < 128 :=
          fun small => needed ⟨two, Or.inr small⟩
        have some_ : digit ≠ 0 := fun zero => needed ⟨two, Or.inl (congrArg some zero)⟩
        have written := @Minimal.to_bytes_decode digit others some_
        have count : Minimal.width (decode (digit :: others)) = (digit :: others).length := by
          rw [← Minimal.to_bytes_length, written]
        rw [lengthBytes_eq, derLength, length, if_neg large, written, count, ← marked,
          UInt8.ofNat_toNat]

/-- Data made of fields is what their elements are written as just where no length is
redundant. -/
theorem encoded_iff {fields : List Field} (wholes : ∀ field ∈ fields, field.Whole) :
    (fields.map Field.element).flatMap Element.encoded = fields.flatMap Field.bytes ↔
      ∀ field ∈ fields, ¬ field.Redundant := by
  have shorter : ∀ rest : List Field, (∀ field ∈ rest, field.Whole) →
      ((rest.map Field.element).flatMap Element.encoded).length ≤
        (rest.flatMap Field.bytes).length := by
    intro rest each
    induction rest with
    | nil => exact le_rfl
    | cons field others induction =>
        obtain ⟨whole, later⟩ := List.forall_mem_cons.mp each
        obtain ⟨longer, exact_⟩ := declared whole
        have front : field.element.encoded.length ≤ field.bytes.length := by
          by_cases redundant : field.Redundant
          · exact le_of_lt (longer redundant)
          · rw [exact_ redundant]
        simp only [List.map_cons, List.flatMap_cons, List.length_append]
        exact Nat.add_le_add front (induction later)
  induction fields with
  | nil => simp
  | cons field others induction =>
      obtain ⟨whole, later⟩ := List.forall_mem_cons.mp wholes
      obtain ⟨longer, exact_⟩ := declared whole
      have rest := induction later
      rw [List.forall_mem_cons, List.map_cons, List.flatMap_cons, List.flatMap_cons]
      constructor
      · intro same
        have needed : ¬ field.Redundant := by
          intro redundant
          have lengths := congrArg List.length same
          have behind := shorter others later
          have front := longer redundant
          rw [List.length_append, List.length_append] at lengths
          omega
        rw [exact_ needed] at same
        exact ⟨needed, rest.mp (List.append_cancel_left same)⟩
      · rintro ⟨needed, none_⟩
        rw [exact_ needed, rest.mpr none_]

theorem unmarked_iff (byte : UInt8) : byte &&& 0x80 = 0 ↔ byte.toNat < 128 := by
  revert byte
  apply forall_byte
  decide +kernel

theorem group_added (value : Nat) (byte : UInt8) :
    (value <<< 7) ||| (byte &&& 0x7F).toNat = value * 128 + byte.toNat % 128 := by
  have low : byte.toNat % 128 < 2 ^ 7 := Nat.mod_lt _ (by decide)
  rw [low_bits, ← Nat.shiftLeft_add_eq_or_of_lt low, Nat.shiftLeft_eq]

theorem arcs_values (value : Nat) (parts : List Text) (bytes : Bytes) :
    arcs value parts bytes =
      if Closed bytes then .ok (parts ++ (values value bytes).map Text.ofNat)
      else .error .midArc := by
  induction bytes generalizing value parts with
  | nil =>
      have closed : Closed [] := by
        intro byte member
        cases member
      rw [if_pos closed, arcs, values, List.map_nil, List.append_nil]
  | cons byte rest induction =>
      rw [arcs, group_added, values]
      cases rest with
      | nil =>
          have ends : Closed [byte] ↔ byte.toNat < 128 :=
            ⟨fun closed => closed byte rfl, fun low last member => Option.some.inj member ▸ low⟩
          by_cases low : byte.toNat < 128
          · have small : byte.toNat % 128 = byte.toNat := Nat.mod_eq_of_lt low
            rw [if_pos ((unmarked_iff byte).mpr low), if_pos low, if_pos (ends.mpr low), small, arcs]
            rfl
          · rw [if_neg fun clear => low ((unmarked_iff byte).mp clear), if_pos rfl,
              if_neg fun closed => low (ends.mp closed)]
      | cons next others =>
          have ends : Closed (byte :: next :: others) ↔ Closed (next :: others) := by
            rw [Closed, Closed, List.getLast?_cons_cons]
          by_cases low : byte.toNat < 128
          · have small : byte.toNat % 128 = byte.toNat := Nat.mod_eq_of_lt low
            rw [if_pos ((unmarked_iff byte).mpr low), if_pos low, induction, small, List.map_cons,
              List.append_assoc]
            simp only [ends, List.singleton_append]
          · rw [if_neg fun clear => low ((unmarked_iff byte).mp clear), if_neg low,
              if_neg (List.cons_ne_nil _ _), induction]
            simp only [ends]

def Allowed : List Nat → Prop
  | first :: second :: _ => first ≤ 2 ∧ (first < 2 → second < 40)
  | _ => False

def oidBytes : List Nat → Bytes
  | first :: second :: rest => Base128.encode (40 * first + second) ++ rest.flatMap Base128.encode
  | _ => []

def dotted (numbers : List Nat) : Text := (str ".").intercalate (numbers.map Text.ofNat)

/-- What the reader makes of content that does not end inside a number. -/
def readArcs (first : UInt8) (rest : Bytes) : List Nat :=
  let top := min (first.toNat / 40) 2
  top :: (first.toNat - 40 * top) :: values 0 rest

theorem oid_read (first : UInt8) (rest : Bytes) :
    oidString ⟨TAG_OID, first :: rest⟩ =
      if Closed rest then .ok (dotted (readArcs first rest)) else .error .midArc := by
  rw [oidString, if_neg (not_not.mpr rfl)]
  dsimp only
  rw [arcs_values]
  by_cases closed : Closed rest
  · rw [if_pos closed, if_pos closed]
    rfl
  · rw [if_neg closed, if_neg closed]

theorem dotted_dots {numbers : List Nat} (some_ : numbers ≠ []) :
    (dotted numbers).count '.' + 1 = numbers.length := by
  have bare : ∀ number : Nat, '.' ∉ Text.ofNat number := by
    intro number member
    obtain ⟨value, small, same⟩ := Decimal.of_nat_figures number '.' member
    have other : ∀ value < 10, '.' ≠ Nat.digitChar value := by decide
    exact other value small same
  induction numbers with
  | nil => exact absurd rfl some_
  | cons number rest induction =>
      cases rest with
      | nil =>
          rw [dotted, List.map_singleton, List.intercalate_singleton,
            List.count_eq_zero.mpr (bare number)]
          rfl
      | cons next others =>
          have later := induction (List.cons_ne_nil _ _)
          rw [dotted] at later ⊢
          have more : (next :: others).map Text.ofNat ≠ [] := List.cons_ne_nil _ _
          rw [List.map_cons, List.intercalate_cons_of_ne_nil more, List.count_append,
            List.count_append, List.count_eq_zero.mpr (bare number), List.length_cons, ← later]
          have dot : (str ".").count '.' = 1 := by decide
          omega

/-- Content the reader treats as it should: none, or content that ends inside a number
behind its first byte, or one whose first number is one byte and whose others are not
padded. -/
def Readable : Bytes → Prop
  | [] => True
  | first :: rest => ¬ Closed rest ∨ (first.toNat < 128 ∧ Bare (first :: rest))

theorem oid_bytes_eq {numbers : List Nat} (allowed : Allowed numbers) :
    ∃ first second rest, numbers = first :: second :: rest ∧ first ≤ 2 ∧
      (first < 2 → second < 40) ∧
      oidBytes numbers = ((40 * first + second) :: rest).flatMap Base128.encode := by
  match numbers, allowed with
  | first :: second :: rest, ⟨low, small⟩ => exact ⟨first, second, rest, rfl, low, small, rfl⟩

theorem tail_closed {first : UInt8} {rest : Bytes} (closed : Closed (first :: rest)) :
    Closed rest := by
  cases rest with
  | nil =>
      intro last member
      cases member
  | cons next others => exact closed_tail closed

/-- What begins with one byte for its first number is read as what it was written for. -/
theorem read_arcs_of {first : UInt8} {rest : Bytes} (low : first.toNat < 128)
    {numbers : List Nat} (allowed : Allowed numbers) (written : oidBytes numbers = first :: rest) :
    readArcs first rest = numbers := by
  obtain ⟨top, second, others, rfl, least, small, bytes⟩ := oid_bytes_eq allowed
  have series : first.toNat :: values 0 rest = (40 * top + second) :: others := by
    have back := values_encoded ((40 * top + second) :: others)
    rw [← bytes, written, values, if_pos low, Nat.zero_mul, Nat.zero_add] at back
    exact back
  obtain ⟨number, behind⟩ := List.cons.inj series
  have lead : min (first.toNat / 40) 2 = top := by omega
  rw [readArcs, behind, lead, number]
  congr 2
  omega

theorem oid_bytes_read {first : UInt8} {rest : Bytes} (low : first.toNat < 128)
    (closed : Closed rest) (bare : Bare (first :: rest)) :
    Allowed (readArcs first rest) ∧ oidBytes (readArcs first rest) = first :: rest := by
  have unpadded : rest.head? ≠ some 0x80 := by
    cases rest with
    | nil =>
        intro padded
        cases padded
    | cons next others =>
        intro padded
        have marked := (List.isChain_cons_cons.mp bare).1 (Option.some.inj padded)
        omega
  have tail : (values 0 rest).flatMap Base128.encode = rest := by
    have rebuilt := @encoded_values _ 0 closed bare.tail (fun _ => unpadded)
      fun some_ => absurd rfl some_
    rwa [groups, if_pos rfl, List.nil_append] at rebuilt
  have lead : Base128.encode first.toNat = [first] := by
    have one := @encode_eq 0 first.toNat low
    rwa [Nat.zero_mul, Nat.zero_add, groups, if_pos rfl, List.nil_append, UInt8.ofNat_toNat] at one
  have sum : 40 * min (first.toNat / 40) 2 + (first.toNat - 40 * min (first.toNat / 40) 2) =
      first.toNat := by omega
  refine ⟨⟨Nat.min_le_right _ _, fun below => ?_⟩, ?_⟩
  · omega
  · rw [readArcs, oidBytes, sum, lead, tail, List.singleton_append]

/-- What the reader owes to content: an identifier's own dotted form, and a refusal where
there is no identifier. -/
def Answered (content : Bytes) : Prop :=
  (∀ numbers, Allowed numbers → oidBytes numbers = content →
    oidString ⟨TAG_OID, content⟩ = .ok (dotted numbers)) ∧
  ((¬ ∃ numbers, Allowed numbers ∧ oidBytes numbers = content) →
    ∃ error, oidString ⟨TAG_OID, content⟩ = .error error)

theorem answered_iff (content : Bytes) : Answered content ↔ Readable content := by
  cases content with
  | nil =>
      refine iff_of_true ⟨?_, fun _ => ⟨.emptyOid, rfl⟩⟩ trivial
      intro numbers allowed empty
      obtain ⟨top, second, rest, -, -, -, bytes⟩ := oid_bytes_eq allowed
      rw [empty, List.flatMap_cons] at bytes
      exact absurd (List.append_eq_nil_iff.mp bytes.symm).1 (encode_some _)
  | cons first rest =>
      have owed : ∀ numbers, Allowed numbers → oidBytes numbers = first :: rest →
          Closed rest ∧ Bare (first :: rest) := by
        intro numbers allowed written
        obtain ⟨top, second, others, -, -, -, bytes⟩ := oid_bytes_eq allowed
        rw [written] at bytes
        rw [bytes]
        exact ⟨tail_closed (bytes ▸ closed_encoded _), bare_encoded _⟩
      rw [Answered, oid_read]
      by_cases closed : Closed rest
      · rw [if_pos closed]
        by_cases low : first.toNat < 128
        · by_cases bare : Bare (first :: rest)
          · -- one byte for the first number, and none of the others padded
            refine iff_of_true ⟨?_, ?_⟩ (Or.inr ⟨low, bare⟩)
            · intro numbers allowed written
              rw [read_arcs_of low allowed written]
            · exact fun none_ => absurd ⟨_, oid_bytes_read low closed bare⟩ none_
          · -- padded, and taken all the same
            refine iff_of_false ?_ ?_
            · rintro ⟨-, refused⟩
              obtain ⟨error, raised⟩ := refused fun ⟨numbers, allowed, written⟩ =>
                bare (owed numbers allowed written).2
              cases raised
            · rintro (open_ | ⟨-, unpadded⟩)
              · exact open_ closed
              · exact bare unpadded
        · -- the first number is cut, and one more comes out of the rest of it
          refine iff_of_false ?_ ?_
          · rintro ⟨right, refused⟩
            by_cases known : ∃ numbers, Allowed numbers ∧ oidBytes numbers = first :: rest
            · obtain ⟨numbers, allowed, written⟩ := known
              have same := right numbers allowed written
              obtain ⟨top, second, others, rfl, -, -, bytes⟩ := oid_bytes_eq allowed
              have counted := congrArg List.length
                (values_encoded ((40 * top + second) :: others))
              rw [← bytes, written, values_length, List.countP_cons_of_neg (by simpa using low),
                ← values_length 0] at counted
              have dots := @dotted_dots (readArcs first rest) (List.cons_ne_nil _ _)
              have meant := @dotted_dots (top :: second :: others)
                (List.cons_ne_nil _ _)
              rw [← Except.ok.inj same] at meant
              rw [readArcs] at dots meant
              simp only [List.length_cons] at dots meant counted
              omega
            · obtain ⟨error, raised⟩ := refused known
              cases raised
          · rintro (open_ | ⟨small, -⟩)
            · exact open_ closed
            · exact low small
      · rw [if_neg closed]
        refine iff_of_true ⟨?_, fun _ => ⟨.midArc, rfl⟩⟩ (Or.inl closed)
        intro numbers allowed written
        exact absurd (owed numbers allowed written).1 closed

end XRootDClient.Crypto.Der
