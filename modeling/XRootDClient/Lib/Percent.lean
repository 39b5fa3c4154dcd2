import Mathlib.Data.List.SplitBy
import XRootDClient.Lib.Dict
import XRootDClient.Lib.Text

/-!
# Percent-encoding and query strings

`quote`, `unquote` and the query-string pair `urlencode`, `parse_qsl` of
`urllib.parse`, with UTF-8 in replacing mode, and the cuts a URL is read with.
Unquoting decodes each run of ASCII on its own and never loses a character
without putting one in its place.
-/

set_option autoImplicit false

namespace XRootDClient.Lib.Percent

/-- The bytes that are never escaped: letters, digits and four marks. -/
def unreserved (byte : UInt8) : Bool :=
  let code := byte.toNat
  (0x41 ≤ code && code ≤ 0x5A) || (0x61 ≤ code && code ≤ 0x7A) || (0x30 ≤ code && code ≤ 0x39) ||
    code == 0x5F || code == 0x2E || code == 0x2D || code == 0x7E

def digit (value : Nat) : Char := (Nat.digitChar value).toUpper

def escape (byte : UInt8) : Text :=
  if unreserved byte then [Char.ofNat byte.toNat]
  else ['%', digit (byte.toNat / 16), digit (byte.toNat % 16)]

/-- `quote(text, safe="")`. -/
def quote (text : Text) : Text := text.encodeUtf8.flatMap escape

def quotePlus (text : Text) : Text :=
  text.encodeUtf8.flatMap fun byte => if byte = 0x20 then ['+'] else escape byte

/-- `urlencode(entries)`. -/
def urlencode (entries : List (Text × Text)) : Text :=
  Text.join ['&'] (entries.map fun entry => quotePlus entry.1 ++ '=' :: quotePlus entry.2)

def hexValue (char : Char) : Option Nat :=
  let code := char.toNat
  if 0x30 ≤ code ∧ code ≤ 0x39 then some (code - 0x30)
  else if 0x41 ≤ code ∧ code ≤ 0x46 then some (code - 0x41 + 10)
  else if 0x61 ≤ code ∧ code ≤ 0x66 then some (code - 0x61 + 10)
  else none

def escaped (high low : Char) : Option UInt8 :=
  (hexValue high).bind fun high => (hexValue low).map fun low => UInt8.ofNat (high * 16 + low)

/-- `unquote_to_bytes` of a run of ASCII: what is no escape stays as it is. -/
def unescape : Text → List UInt8
  | '%' :: high :: low :: rest =>
      match escaped high low with
      | some byte => byte :: unescape rest
      | none => UInt8.ofNat '%'.toNat :: unescape (high :: low :: rest)
  | char :: rest => UInt8.ofNat char.toNat :: unescape rest
  | [] => []

def ascii (char : Char) : Bool := char.toNat < 0x80

def runs (text : Text) : List Text := text.splitBy fun left right => ascii left == ascii right

/-- `unquote(text)`. -/
def unquote (text : Text) : Text :=
  if '%' ∈ text then
    (runs text).flatMap fun run => if run.all ascii then Text.decodeUtf8 (unescape run) else run
  else text

def unquotePlus (text : Text) : Text :=
  unquote (text.map fun char => if char = '+' then ' ' else char)

def nameOf (field : Text) : Text := unquotePlus (Text.partition '=' field).1

def pair (field : Text) : Option (Text × Text) :=
  if field = [] then none else some (nameOf field, unquotePlus (Text.partition '=' field).2.2)

/-- `parse_qsl(text, keep_blank_values=True)`. -/
def parseQsl (text : Text) : List (Text × Text) := (text.splitOn '&').filterMap pair

/-- `text.rpartition(mark)`: the part before the last mark, whether there was one, and
the part after it. -/
def rpartition (mark : Char) (text : Text) : Text × Bool × Text :=
  let (last, found, front) := Text.partition mark text.reverse
  if found then (front.reverse, true, last.reverse) else ([], false, text)

/-- `text.split("://", 1)`, where the mark is there. -/
def splitScheme : Text → Option (Text × Text)
  | [] => none
  | char :: rest =>
      if char = ':' ∧ rest.take 2 = ['/', '/'] then some ([], rest.drop 2)
      else (splitScheme rest).map fun (scheme, rest) => (char :: scheme, rest)

theorem decode_some {bytes : List UInt8} (some : bytes ≠ []) : Text.decodeUtf8 bytes ≠ [] := by
  cases bytes with
  | nil => exact absurd rfl some
  | cons lead rest =>
      rw [Text.decodeUtf8.eq_def]
      dsimp only
      repeat' split
      all_goals exact List.cons_ne_nil _ _

theorem unescape_some {run : Text} (some : run ≠ []) : unescape run ≠ [] := by
  unfold unescape
  split
  · split <;> exact List.cons_ne_nil _ _
  · exact List.cons_ne_nil _ _
  · exact absurd rfl some

theorem unquote_eq_nil (text : Text) : unquote text = [] ↔ text = [] := by
  constructor
  · intro nothing
    unfold unquote at nothing
    split_ifs at nothing with marked
    · rw [List.flatMap_eq_nil_iff] at nothing
      by_contra some
      have cut : runs text ≠ [] := List.splitBy_ne_nil.mpr some
      obtain ⟨run, member⟩ := List.exists_mem_of_ne_nil _ cut
      have whole : run ≠ [] := List.ne_nil_of_mem_splitBy member
      have gone := nothing run member
      split_ifs at gone
      · exact decode_some (unescape_some whole) gone
      · exact whole gone
    · exact nothing
  · intro same
    rw [same]
    rfl

def Plain (char : Char) : Prop :=
  char ≠ '/' ∧ char ≠ ':' ∧ char ≠ '&' ∧ char ≠ '='

instance (char : Char) : Decidable (Plain char) := inferInstanceAs (Decidable (_ ∧ _))

theorem digit_plain : ∀ value < 16, Plain (digit value) := by decide

theorem escape_plain (byte : UInt8) : ∀ char ∈ escape byte, Plain char := by
  intro char member
  have small := byte.toNat_lt
  unfold escape at member
  split_ifs at member with safe
  · have code : (Char.ofNat byte.toNat).toNat = byte.toNat := by
      rw [Char.ofNat, dif_pos (Or.inl (by omega))]
      rfl
    have other {mark : Char} (escaped : unreserved (UInt8.ofNat mark.toNat) = false) :
        Char.ofNat byte.toNat ≠ mark := by
      intro same
      rw [← same, code, UInt8.ofNat_toNat, safe] at escaped
      cases escaped
    rw [List.mem_singleton.mp member]
    exact ⟨other (by decide), other (by decide), other (by decide), other (by decide)⟩
  · simp only [List.mem_cons, List.not_mem_nil, or_false] at member
    rcases member with rfl | rfl | rfl
    · decide
    · exact digit_plain _ (by omega)
    · exact digit_plain _ (by omega)

theorem quote_plain (text : Text) : ∀ char ∈ quote text, Plain char := by
  intro char member
  obtain ⟨byte, -, inside⟩ := List.mem_flatMap.mp member
  exact escape_plain byte char inside

theorem quote_plus_plain (text : Text) : ∀ char ∈ quotePlus text, Plain char := by
  intro char member
  obtain ⟨byte, -, inside⟩ := List.mem_flatMap.mp member
  split_ifs at inside
  · rw [List.mem_singleton.mp inside]
    decide
  · exact escape_plain byte char inside

theorem quote_some {text : Text} (some : text ≠ []) : quote text ≠ [] := by
  intro nothing
  obtain ⟨char, member⟩ := List.exists_mem_of_ne_nil _ some
  have short : (String.utf8EncodeChar char).flatMap escape = [] := by
    rw [quote, Text.encodeUtf8, List.flatMap_assoc, List.flatMap_eq_nil_iff] at nothing
    exact nothing char member
  rw [List.flatMap_eq_nil_iff] at short
  have bytes : String.utf8EncodeChar char ≠ [] := by
    rw [← List.length_pos_iff, String.length_utf8EncodeChar]
    exact char.utf8Size_pos
  obtain ⟨byte, inside⟩ := List.exists_mem_of_ne_nil _ bytes
  have gone := short byte inside
  unfold escape at gone
  split_ifs at gone

def written (entry : Text × Text) : Text := quotePlus entry.1 ++ '=' :: quotePlus entry.2

theorem written_bare (entry : Text × Text) : '&' ∉ written entry := by
  have plain (text : Text) : '&' ∉ quotePlus text := fun member =>
    (quote_plus_plain text '&' member).2.2.1 rfl
  simp [written, plain]

theorem join_intercalate (separator : Text) (items : List Text) :
    Text.join separator items = separator.intercalate items := by
  fun_induction Text.join separator items with
  | case1 => rfl
  | case2 only => simp
  | case3 first rest more induction =>
      obtain ⟨second, others, shape⟩ := List.exists_cons_of_ne_nil more
      rw [induction, shape]
      simp [List.intercalate_cons_cons]

theorem split_urlencode {entries : List (Text × Text)} (some : entries ≠ []) :
    (urlencode entries).splitOn '&' = entries.map written := by
  rw [urlencode, join_intercalate]
  apply List.splitOn_intercalate
  · intro field member
    obtain ⟨entry, -, rfl⟩ := List.mem_map.mp member
    exact written_bare entry
  · simpa using some

theorem rpartition_append (mark : Char) (tail : Text) :
    ∃ kept last, ∀ head, rpartition mark (head ++ mark :: tail) = (head ++ kept, true, last) := by
  have turned (head : Text) : (head ++ mark :: tail).reverse =
      tail.reverse ++ mark :: head.reverse := by simp
  by_cases again : mark ∈ tail
  · obtain ⟨first, rest, shape, bare⟩ :=
      List.eq_append_cons_of_mem (List.mem_reverse.mpr again)
    refine ⟨mark :: rest.reverse, first.reverse, fun head => ?_⟩
    rw [rpartition, turned, shape, List.append_assoc, List.cons_append,
      Text.partition_append bare, Text.partition_self]
    simp
  · refine ⟨[], tail, fun head => ?_⟩
    rw [rpartition, turned, Text.partition_append (by simpa using again), Text.partition_self]
    simp

theorem take_scheme (scheme rest : Text) :
    (scheme ++ ':' :: '/' :: '/' :: rest).take 2 = ['/', '/'] ↔ scheme.take 2 = ['/', '/'] := by
  match scheme with
  | [] => simp
  | [only] => simp
  | first :: second :: more => simp

theorem split_scheme_append {scheme : Text} (bare : splitScheme scheme = none) (rest : Text) :
    splitScheme (scheme ++ ':' :: '/' :: '/' :: rest) = some (scheme, rest) := by
  induction scheme with
  | nil => simp [splitScheme]
  | cons char scheme induction =>
      rw [splitScheme] at bare
      split_ifs at bare with here
      rw [List.cons_append, splitScheme, if_neg fun there => here ⟨there.1,
        (take_scheme scheme rest).mp there.2⟩, induction (Option.map_eq_none_iff.mp bare)]
      rfl

end XRootDClient.Lib.Percent
