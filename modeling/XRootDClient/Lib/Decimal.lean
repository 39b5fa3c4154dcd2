import XRootDClient.Lib.Text

/-!
Numbers in decimal, as `int` reads them: blanks around them, a sign, and digits of any
script with single underscores between them.
-/

set_option autoImplicit false

namespace XRootDClient.Lib.Decimal

/-- The zeros of the scripts that write decimal digits; the other nine stand behind each. -/
def zeros : List Nat :=
  [0x30, 0x660, 0x6F0, 0x7C0, 0x966, 0x9E6, 0xA66, 0xAE6, 0xB66, 0xBE6, 0xC66, 0xCE6, 0xD66, 0xDE6,
   0xE50, 0xED0, 0xF20, 0x1040, 0x1090, 0x17E0, 0x1810, 0x1946, 0x19D0, 0x1A80, 0x1A90, 0x1B50,
   0x1BB0, 0x1C40, 0x1C50, 0xA620, 0xA8D0, 0xA900, 0xA9D0, 0xA9F0, 0xAA50, 0xABF0, 0xFF10, 0x104A0,
   0x10D30, 0x11066, 0x110F0, 0x11136, 0x111D0, 0x112F0, 0x11450, 0x114D0, 0x11650, 0x116C0,
   0x11730, 0x118E0, 0x11950, 0x11C50, 0x11D50, 0x11DA0, 0x16A60, 0x16AC0, 0x16B50, 0x1D7CE,
   0x1D7D8, 0x1D7E2, 0x1D7EC, 0x1D7F6, 0x1E140, 0x1E2F0, 0x1E950, 0x1FBF0]

def digitValue (char : Char) : Option Nat :=
  zeros.findSome? fun start =>
    if start ≤ char.toNat ∧ char.toNat < start + 10 then some (char.toNat - start) else none

def digits (value : Nat) : Text → Option Nat
  | [] => some value
  | '_' :: char :: rest => do
      let next ← digitValue char
      digits (value * 10 + next) rest
  | char :: rest => do
      let next ← digitValue char
      digits (value * 10 + next) rest

def unsigned : Text → Option Nat
  | [] => none
  | char :: rest => do
      let first ← digitValue char
      digits first rest

/-- `int(text)`; nothing where it raises `ValueError`. -/
def int (text : Text) : Option Int :=
  match Text.strip text with
  | '-' :: rest => (unsigned rest).map fun value : Nat => -(value : Int)
  | '+' :: rest => (unsigned rest).map Int.ofNat
  | rest => (unsigned rest).map Int.ofNat

def Figure (char : Char) : Prop := ∃ value < 10, char = Nat.digitChar value

theorem digit_value_char : ∀ value < 10, digitValue (Nat.digitChar value) = some value := by
  decide

theorem digit_char_not : ∀ value < 10, Nat.digitChar value ≠ '_' ∧ Nat.digitChar value ≠ '-' ∧
    Nat.digitChar value ≠ '+' ∧ Text.isSpace (Nat.digitChar value) = false ∧
    Nat.digitChar value ≠ Char.ofNat 0 ∧ Nat.digitChar value ≠ '[' ∧
    Nat.digitChar value ≠ ']' := by
  decide

theorem of_nat_step (value : Nat) : Text.ofNat value =
    if value < 10 then [Nat.digitChar value]
    else Text.ofNat (value / 10) ++ [Nat.digitChar (value % 10)] :=
  Nat.toDigits_eq_if (by decide)

theorem of_nat_figures (value : Nat) : ∀ char ∈ Text.ofNat value, Figure char := by
  induction value using Nat.strongRecOn with
  | _ value induction =>
      rw [of_nat_step]
      split
      · next small =>
          intro char member
          exact ⟨value, small, List.mem_singleton.mp member⟩
      · next large =>
          intro char member
          rcases List.mem_append.mp member with early | last
          · exact induction (value / 10) (by omega) char early
          · exact ⟨value % 10, Nat.mod_lt _ (by decide), List.mem_singleton.mp last⟩

theorem of_nat_some (value : Nat) : Text.ofNat value ≠ [] := Nat.toDigits_ne_nil

theorem digits_append {text : Text} (figures : ∀ char ∈ text, Figure char) {start value next : Nat}
    (read : digits start text = some value) (small : next < 10) :
    digits start (text ++ [Nat.digitChar next]) = some (value * 10 + next) := by
  induction text generalizing start with
  | nil =>
      cases read
      rw [List.nil_append, digits, digit_value_char next small]
      · rfl
      · exact fun _ _ _ same => nomatch same
  | cons char rest induction =>
      obtain ⟨figure, bound, rfl⟩ := figures char List.mem_cons_self
      have plain := (digit_char_not figure bound).1
      rw [digits, digit_value_char figure bound] at read
      · rw [List.cons_append, digits, digit_value_char figure bound]
        · exact induction (fun other member => figures other (List.mem_cons_of_mem _ member)) read
        · exact fun _ _ same _ => plain same
      · exact fun _ _ same _ => plain same

theorem unsigned_of_nat (value : Nat) : unsigned (Text.ofNat value) = some value := by
  induction value using Nat.strongRecOn with
  | _ value induction =>
      rw [of_nat_step]
      split
      · next small =>
          rw [unsigned, digit_value_char value small]
          rfl
      · next large =>
          have front := induction (value / 10) (by omega)
          have figures := of_nat_figures (value / 10)
          cases written : Text.ofNat (value / 10) with
          | nil => exact absurd written (of_nat_some _)
          | cons char rest =>
              rw [written] at front figures
              obtain ⟨figure, bound, rfl⟩ := figures char List.mem_cons_self
              rw [unsigned, digit_value_char figure bound] at front
              rw [List.cons_append, unsigned, digit_value_char figure bound]
              change digits figure (rest ++ _) = _
              rw [digits_append (fun other member => figures other (List.mem_cons_of_mem _ member))
                front (Nat.mod_lt value (by decide))]
              congr 1
              omega

theorem drop_space_self {text : Text} (bare : ∀ char ∈ text, Text.isSpace char = false) :
    text.dropWhile Text.isSpace = text := by
  cases text with
  | nil => rfl
  | cons char rest =>
      apply List.dropWhile_cons_of_neg
      rw [bare char List.mem_cons_self]
      decide

theorem strip_self {text : Text} (bare : ∀ char ∈ text, Text.isSpace char = false) :
    Text.strip text = text := by
  have back : ∀ char ∈ text.reverse, Text.isSpace char = false := fun char member =>
    bare char (List.mem_reverse.mp member)
  rw [Text.strip, drop_space_self bare, drop_space_self back, List.reverse_reverse]

theorem mem_of_int {value : Int} {char : Char} (member : char ∈ Text.ofInt value) :
    char = '-' ∨ Figure char := by
  cases value with
  | ofNat value => exact .inr (of_nat_figures value char member)
  | negSucc value =>
      rcases List.mem_cons.mp member with sign | figure
      · exact .inl sign
      · exact .inr (of_nat_figures (value + 1) char figure)

theorem of_int_some (value : Int) : Text.ofInt value ≠ [] := by
  cases value with
  | ofNat value => exact of_nat_some value
  | negSucc value => exact List.cons_ne_nil _ _

theorem of_int_bare (value : Int) : ∀ char ∈ Text.ofInt value, Text.isSpace char = false := by
  intro char member
  rcases mem_of_int member with rfl | ⟨figure, bound, rfl⟩
  · decide
  · exact (digit_char_not figure bound).2.2.2.1

theorem int_of_int (value : Int) : int (Text.ofInt value) = some value := by
  rw [int, strip_self (of_int_bare value)]
  cases value with
  | ofNat value =>
      have read := unsigned_of_nat value
      have figures := of_nat_figures value
      change (match Text.ofNat value with
        | '-' :: rest => (unsigned rest).map fun value : Nat => -(value : Int)
        | '+' :: rest => (unsigned rest).map Int.ofNat
        | rest => (unsigned rest).map Int.ofNat) = _
      cases written : Text.ofNat value with
      | nil => exact absurd written (of_nat_some value)
      | cons char rest =>
          rw [written] at read figures
          obtain ⟨figure, bound, rfl⟩ := figures char List.mem_cons_self
          have signs := (digit_char_not figure bound).2
          split
          · next same => exact absurd (List.cons.inj same).1 signs.1
          · next same => exact absurd (List.cons.inj same).1 signs.2.1
          · rw [read]
            rfl
  | negSucc value =>
      change (unsigned (Text.ofNat (value + 1))).map _ = _
      rw [unsigned_of_nat]
      rfl

end XRootDClient.Lib.Decimal
