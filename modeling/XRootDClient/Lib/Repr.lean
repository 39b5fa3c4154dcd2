import Mathlib.Data.List.Basic
import XRootDClient.Lib.Text

/-!
# What `repr` writes

The `repr` of a string, of an optional string, of a truth value and of a tuple of
strings. Which characters beyond ASCII are printable is a table of the interpreter and
is given. A string written this way ends where its quote closes, so it can be told from
whatever stands behind it; no writing holds a NUL.
-/

set_option autoImplicit false

namespace XRootDClient.Lib.Repr

def backslash : Char := Char.ofNat 92

def apostrophe : Char := Char.ofNat 39

def quotation : Char := Char.ofNat 34

def nul : Char := Char.ofNat 0

def hex : Nat → Nat → Text
  | 0, _ => []
  | width + 1, value => hex width (value / 16) ++ [Nat.digitChar (value % 16)]

/-- A character of a string that is written between two `quote`s. -/
def escape (printable : Char → Bool) (quote char : Char) : Text :=
  if char = quote ∨ char = backslash then [backslash, char]
  else if char = '\t' then [backslash, 't']
  else if char = '\n' then [backslash, 'n']
  else if char = '\r' then [backslash, 'r']
  else if 32 ≤ char.toNat ∧ char.toNat < 127 ∨ 127 < char.toNat ∧ printable char = true then [char]
  else if char.toNat ≤ 0xff then backslash :: 'x' :: hex 2 char.toNat
  else if char.toNat ≤ 0xffff then backslash :: 'u' :: hex 4 char.toNat
  else backslash :: 'U' :: hex 8 char.toNat

def quoteOf (value : Text) : Char :=
  if apostrophe ∈ value ∧ quotation ∉ value then quotation else apostrophe

section Writing

variable (printable : Char → Bool)

def text (value : Text) : Text :=
  quoteOf value :: value.flatMap (escape printable (quoteOf value)) ++ [quoteOf value]

def optional : Option Text → Text
  | none => str "None"
  | some value => text printable value

def truth (value : Bool) : Text := if value then str "True" else str "False"

def tuple : List Text → Text
  | [] => str "()"
  | [only] => '(' :: text printable only ++ str ",)"
  | items => '(' :: Text.join (str ", ") (items.map (text printable)) ++ str ")"

end Writing

def digitOf (char : Char) : Nat :=
  if char.toNat < 58 then char.toNat - 48 else char.toNat - 87

def fromHex (digits : Text) : Nat := digits.foldl (fun value digit => value * 16 + digitOf digit) 0

/-- The first character of what is written, and what is left behind it. -/
def read : Text → Option (Char × Text)
  | [] => none
  | char :: rest =>
      if char ≠ backslash then some (char, rest)
      else
        match rest with
        | [] => none
        | mark :: rest =>
            if mark = 't' then some ('\t', rest)
            else if mark = 'n' then some ('\n', rest)
            else if mark = 'r' then some ('\r', rest)
            else if mark = 'x' then some (Char.ofNat (fromHex (rest.take 2)), rest.drop 2)
            else if mark = 'u' then some (Char.ofNat (fromHex (rest.take 4)), rest.drop 4)
            else if mark = 'U' then some (Char.ofNat (fromHex (rest.take 8)), rest.drop 8)
            else some (mark, rest)

@[simp] theorem hex_length (width value : Nat) : (hex width value).length = width := by
  induction width generalizing value with
  | zero => rfl
  | succ width induction => simp [hex, induction]

theorem digit_of_digit_char : ∀ digit < 16, digitOf (Nat.digitChar digit) = digit := by
  decide

theorem from_hex_hex (width value : Nat) : fromHex (hex width value) = value % 16 ^ width := by
  induction width generalizing value with
  | zero => simp [hex, fromHex, Nat.mod_one]
  | succ width induction =>
      have digit := digit_of_digit_char (value % 16) (Nat.mod_lt _ (by decide))
      have high := induction (value / 16)
      rw [fromHex] at high
      rw [hex, fromHex, List.foldl_append, high]
      simp only [List.foldl_cons, List.foldl_nil, digit]
      rw [Nat.pow_succ, Nat.mul_comm (16 ^ width), Nat.mod_mul]
      omega

theorem of_from_hex {char : Char} {width : Nat} (small : char.toNat < 16 ^ width) :
    Char.ofNat (fromHex (hex width char.toNat)) = char := by
  rw [from_hex_hex, Nat.mod_eq_of_lt small, Char.ofNat_toNat]

def Quote (quote : Char) : Prop := quote = apostrophe ∨ quote = quotation

theorem quote_of_quote (value : Text) : Quote (quoteOf value) := by
  unfold quoteOf
  split
  · exact Or.inr rfl
  · exact Or.inl rfl

variable {printable : Char → Bool} {quote : Char}

theorem read_escape (quoted : Quote quote) (char : Char) (rest : Text) :
    read (escape printable quote char ++ rest) = some (char, rest) := by
  have small : char.toNat < 16 ^ 8 := char.val.toNat_lt
  unfold escape
  split_ifs with marked tab line feed plain low middle
  · rcases marked with rfl | rfl
    · rcases quoted with rfl | rfl <;> rfl
    · rfl
  · rw [tab]
    rfl
  · rw [line]
    rfl
  · rw [feed]
    rfl
  · have other : char ≠ backslash := fun same => marked (Or.inr same)
    simp [read, other]
  · have back := @of_from_hex char 2 (by omega)
    simp [read, back]
  · have back := @of_from_hex char 4 (by omega)
    simp [read, back]
  · have back := @of_from_hex char 8 small
    simp [read, back]

theorem escape_split (quoted : Quote quote) {left right : Char} {rest other : Text}
    (same : escape printable quote left ++ rest = escape printable quote right ++ other) :
    left = right ∧ rest = other := by
  have first := @read_escape printable quote quoted left rest
  have second := @read_escape printable quote quoted right other
  rw [same, second, Option.some.injEq, Prod.mk.injEq] at first
  exact ⟨first.1.symm, first.2.symm⟩

theorem escape_head (quoted : Quote quote) (char : Char) (rest other : Text) :
    escape printable quote char ++ rest ≠ quote :: other := by
  have slash : backslash ≠ quote := by
    rcases quoted with rfl | rfl <;> decide
  have shape : ∃ head tail, escape printable quote char = head :: tail ∧ head ≠ quote := by
    unfold escape
    split_ifs with marked
    all_goals first
      | exact ⟨_, _, rfl, slash⟩
      | exact ⟨_, _, rfl, fun same => marked (Or.inl same)⟩
  obtain ⟨head, tail, shape, differs⟩ := shape
  intro same
  rw [shape, List.cons_append, List.cons.injEq] at same
  exact differs same.1

theorem body_split (quoted : Quote quote) {left right rest other : Text}
    (same : left.flatMap (escape printable quote) ++ quote :: rest =
      right.flatMap (escape printable quote) ++ quote :: other) :
    left = right ∧ rest = other := by
  induction left generalizing right with
  | nil =>
      cases right with
      | nil =>
          rw [List.flatMap_nil, List.nil_append, List.nil_append, List.cons.injEq] at same
          exact ⟨rfl, same.2⟩
      | cons char right =>
          rw [List.flatMap_nil, List.nil_append, List.flatMap_cons, List.append_assoc] at same
          exact absurd same.symm (escape_head quoted _ _ _)
  | cons char left induction =>
      cases right with
      | nil =>
          rw [List.flatMap_nil, List.nil_append, List.flatMap_cons, List.append_assoc] at same
          exact absurd same (escape_head quoted _ _ _)
      | cons again right =>
          rw [List.flatMap_cons, List.flatMap_cons, List.append_assoc, List.append_assoc] at same
          obtain ⟨here, later⟩ := escape_split quoted same
          obtain ⟨there, behind⟩ := induction later
          exact ⟨by rw [here, there], behind⟩

theorem text_split {left right rest other : Text}
    (same : text printable left ++ rest = text printable right ++ other) :
    left = right ∧ rest = other := by
  simp only [text, List.cons_append, List.append_assoc, List.cons.injEq]
    at same
  obtain ⟨quotes, same⟩ := same
  rw [← quotes] at same
  exact body_split (quote_of_quote left) same

theorem text_injective : Function.Injective (text printable) := by
  intro left right same
  have appended : text printable left ++ [] = text printable right ++ [] := by
    rw [same]
  exact (text_split appended).1

theorem text_head (value : Text) : ∃ quote rest, text printable value = quote :: rest ∧
    Quote quote :=
  ⟨_, _, rfl, quote_of_quote value⟩

theorem optional_injective : Function.Injective (optional printable) := by
  have named : ∀ value, str "None" ≠ text printable value := by
    intro value same
    obtain ⟨quote, rest, shape, quoted⟩ := @text_head printable value
    rw [shape, show str "None" = 'N' :: str "one" from rfl, List.cons.injEq] at same
    rcases quoted with rfl | rfl <;> exact absurd same.1 (by decide)
  intro left right same
  cases left with
  | none =>
      cases right with
      | none => rfl
      | some value => exact absurd same (named value)
  | some value =>
      cases right with
      | none => exact absurd same.symm (named value)
      | some other => rw [text_injective same]

theorem truth_injective : Function.Injective truth := by
  intro left right
  cases left <;> cases right <;> decide

theorem join_eq (separator first : Text) (rest : List Text) :
    Text.join separator (first :: rest) = first ++ rest.flatMap (separator ++ ·) := by
  induction rest generalizing first with
  | nil => simp [Text.join]
  | cons second rest induction =>
      rw [Text.join, induction, List.flatMap_cons, List.append_assoc, List.append_assoc]
      exact fun none => List.cons_ne_nil _ _ none

def behind (printable : Char → Bool) (items : List Text) : Text :=
  items.flatMap (fun item => ',' :: ' ' :: text printable item) ++ [')']

theorem behind_injective : Function.Injective (behind printable) := by
  intro left
  induction left with
  | nil =>
      intro right same
      cases right with
      | nil => rfl
      | cons item right => exact absurd (congrArg List.head? same) (by simp [behind])
  | cons item left induction =>
      intro right same
      cases right with
      | nil => exact absurd (congrArg List.head? same) (by simp [behind])
      | cons other right =>
          simp only [behind, List.flatMap_cons, List.cons_append, List.append_assoc,
            List.cons.injEq, true_and] at same
          obtain ⟨here, later⟩ := text_split same
          rw [here, induction later]

theorem tuple_several (first second : Text) (rest : List Text) :
    tuple printable (first :: second :: rest) =
      '(' :: (text printable first ++ behind printable (second :: rest)) := by
  rw [tuple, List.map_cons, join_eq, behind, List.flatMap_map, List.cons_append,
    List.append_assoc]
  · rfl
  · exact fun none => List.cons_ne_nil _ _ none
  · exact fun _ none => List.cons_ne_nil _ _ (List.cons.inj none).2

theorem tuple_injective : Function.Injective (tuple printable) := by
  have opens : ∀ value rest, str "()" ≠ '(' :: (text printable value ++ rest) := by
    intro value rest same
    obtain ⟨quote, tail, shape, quoted⟩ := @text_head printable value
    rw [shape, show str "()" = ['(', ')'] from rfl, List.cons_append, List.cons.injEq,
      List.cons.injEq] at same
    rcases quoted with rfl | rfl <;> exact absurd same.2.1 (by decide)
  have closes : ∀ item rest, str ",)" ≠ behind printable (item :: rest) := by
    intro item rest same
    have second := congrArg (fun text : Text => text.tail.head?) same
    simp [behind, str] at second
  intro left right same
  match left, right with
  | [], [] => rfl
  | [], [only] => exact absurd same (opens _ _)
  | [], first :: second :: rest =>
      rw [tuple_several] at same
      exact absurd same (opens _ _)
  | [only], [] => exact absurd same.symm (opens _ _)
  | [only], [other] =>
      rw [tuple, tuple, List.cons_append, List.cons_append, List.cons.injEq] at same
      rw [(text_split same.2).1]
  | [only], first :: second :: rest =>
      rw [tuple, tuple_several, List.cons_append, List.cons.injEq] at same
      exact absurd (text_split same.2).2 (closes _ _)
  | first :: second :: rest, [] =>
      rw [tuple_several] at same
      exact absurd same.symm (opens _ _)
  | first :: second :: rest, [only] =>
      rw [tuple, tuple_several, List.cons_append, List.cons.injEq] at same
      exact absurd (text_split same.2).2.symm (closes _ _)
  | first :: second :: rest, other :: another :: more =>
      rw [tuple_several, tuple_several, List.cons.injEq] at same
      obtain ⟨here, later⟩ := text_split same.2
      rw [here, behind_injective later]

theorem hex_bare (width value : Nat) : nul ∉ hex width value := by
  have digits : ∀ digit < 16, nul ≠ Nat.digitChar digit := by
    decide
  induction width generalizing value with
  | zero => exact List.not_mem_nil
  | succ width induction =>
      rw [hex, List.mem_append, not_or, List.mem_singleton]
      exact ⟨induction _, digits _ (Nat.mod_lt _ (by decide))⟩

theorem escape_bare (quoted : Quote quote) (char : Char) :
    nul ∉ escape printable quote char := by
  have slash : nul ≠ backslash := by
    decide
  unfold escape
  split_ifs with marked tab line feed plain
  · rcases marked with rfl | rfl
    · rcases quoted with rfl | rfl <;> decide
    · decide
  · decide
  · decide
  · decide
  · rw [List.mem_singleton]
    rintro rfl
    revert plain
    simp [nul]
  all_goals
    rw [List.mem_cons, List.mem_cons, not_or, not_or]
    exact ⟨slash, by decide, hex_bare _ _⟩

theorem text_bare (value : Text) : nul ∉ text printable value := by
  have quoted := quote_of_quote value
  have quote : nul ≠ quoteOf value := by
    rcases quoted with same | same <;> rw [same] <;> decide
  rw [text, List.mem_append, List.mem_cons, List.mem_flatMap, List.mem_singleton]
  rintro ((same | ⟨char, -, member⟩) | same)
  · exact quote same
  · exact escape_bare quoted char member
  · exact quote same

theorem optional_bare (value : Option Text) : nul ∉ optional printable value := by
  cases value with
  | none => exact show nul ∉ str "None" by decide
  | some value => exact text_bare value

theorem truth_bare (value : Bool) : nul ∉ truth value := by
  cases value <;> decide

theorem behind_bare (items : List Text) : nul ∉ behind printable items := by
  rw [behind, List.mem_append, List.mem_flatMap, List.mem_singleton]
  rintro (⟨item, -, member⟩ | same)
  · rw [List.mem_cons, List.mem_cons] at member
    rcases member with same | same | member
    · exact absurd same (by decide)
    · exact absurd same (by decide)
    · exact text_bare item member
  · exact absurd same (by decide)

theorem tuple_bare (items : List Text) : nul ∉ tuple printable items := by
  match items with
  | [] => exact show nul ∉ str "()" by decide
  | [only] =>
      rw [tuple, List.mem_append, List.mem_cons]
      rintro ((same | member) | member)
      · exact absurd same (by decide)
      · exact text_bare only member
      · exact absurd member (by decide)
  | first :: second :: rest =>
      rw [tuple_several, List.mem_cons, List.mem_append]
      rintro (same | member | member)
      · exact absurd same (by decide)
      · exact text_bare first member
      · exact behind_bare _ member

def fields (writings : List Text) : Text := writings.flatMap (nul :: ·)

theorem fields_head (writings : List Text) : fields writings = [] ∨
    ∃ rest, fields writings = nul :: rest := by
  cases writings with
  | nil => exact Or.inl rfl
  | cons writing writings => exact Or.inr ⟨_, rfl⟩

theorem bare_split {left right rest other : Text} (bare : nul ∉ left) (plain : nul ∉ right)
    (first : rest = [] ∨ ∃ later, rest = nul :: later)
    (second : other = [] ∨ ∃ later, other = nul :: later)
    (same : left ++ rest = right ++ other) : left = right ∧ rest = other := by
  induction left generalizing right with
  | nil =>
      cases right with
      | nil => exact ⟨rfl, same⟩
      | cons char right =>
          rcases first with rfl | ⟨later, rfl⟩
          · cases same
          · rw [List.nil_append, List.cons_append, List.cons.injEq] at same
            exact absurd (same.1 ▸ List.mem_cons_self) plain
  | cons char left induction =>
      cases right with
      | nil =>
          rcases second with rfl | ⟨later, rfl⟩
          · cases same
          · rw [List.nil_append, List.cons_append, List.cons.injEq] at same
            exact absurd (same.1 ▸ List.mem_cons_self) bare
      | cons again right =>
          rw [List.cons_append, List.cons_append, List.cons.injEq] at same
          rw [List.mem_cons, not_or] at bare plain
          obtain ⟨here, behind⟩ := induction bare.2 plain.2 same.2
          exact ⟨by rw [same.1, here], behind⟩

theorem fields_injective {left right : List Text} (bare : ∀ writing ∈ left, nul ∉ writing)
    (plain : ∀ writing ∈ right, nul ∉ writing) (same : fields left = fields right) :
    left = right := by
  induction left generalizing right with
  | nil =>
      cases right with
      | nil => rfl
      | cons writing right => cases same
  | cons writing left induction =>
      cases right with
      | nil => cases same
      | cons other right =>
          rw [List.forall_mem_cons] at bare plain
          simp only [fields, List.flatMap_cons, List.cons_append, List.cons.injEq,
            true_and] at same
          obtain ⟨here, later⟩ := bare_split bare.1 plain.1 (fields_head left) (fields_head right)
            same
          rw [here, induction bare.2 plain.2 later]

end XRootDClient.Lib.Repr
