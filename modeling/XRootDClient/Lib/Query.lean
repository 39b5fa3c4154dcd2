import Mathlib.Data.List.TakeWhile
import XRootDClient.Lib.Percent

/-!
# What is written is read back

The laws of `quote` with `unquote` and of `urlencode` with `parse_qsl`. An escape is
ASCII, so that everything that was quoted is one run and is decoded whole; a blank is
written as the one mark that no escape holds. Then the cuts a URL is taken apart with.
-/

set_option autoImplicit false

namespace XRootDClient.Lib.Percent

def safe (char : Char) : Bool :=
  char == '%' || ascii char && unreserved (UInt8.ofNat char.toNat)

theorem hex_digit : ∀ value < 16, hexValue (digit value) = some value := by decide

theorem digit_safe : ∀ value < 16, safe (digit value) = true := by decide

theorem code_of_byte (byte : UInt8) : (Char.ofNat byte.toNat).toNat = byte.toNat := by
  have small := byte.toNat_lt
  rw [Char.ofNat, dif_pos (Or.inl (by omega))]
  rfl

theorem unreserved_ascii {byte : UInt8} (kept : unreserved byte = true) : byte.toNat < 0x80 := by
  simp only [unreserved, Bool.or_eq_true, Bool.and_eq_true, decide_eq_true_eq, beq_iff_eq] at kept
  omega

theorem escape_safe (byte : UInt8) : ∀ char ∈ escape byte, safe char = true := by
  intro char member
  have small := byte.toNat_lt
  unfold escape at member
  split_ifs at member with kept
  · have low := unreserved_ascii kept
    rw [List.mem_singleton.mp member, safe, ascii, code_of_byte, UInt8.ofNat_toNat, kept]
    simp [low]
  · simp only [List.mem_cons, List.not_mem_nil, or_false] at member
    rcases member with rfl | rfl | rfl
    · rfl
    · exact digit_safe _ (by omega)
    · exact digit_safe _ (by omega)

theorem quote_safe (text : Text) : ∀ char ∈ quote text, safe char = true := by
  intro char member
  obtain ⟨byte, -, inside⟩ := List.mem_flatMap.mp member
  exact escape_safe byte char inside

theorem safe_ascii {char : Char} (plain : safe char = true) : ascii char = true := by
  unfold safe at plain
  rw [Bool.or_eq_true, Bool.and_eq_true, beq_iff_eq] at plain
  rcases plain with rfl | ⟨low, -⟩
  · rfl
  · exact low

theorem unescape_plain {char : Char} (other : char ≠ '%') (rest : Text) :
    unescape (char :: rest) = UInt8.ofNat char.toNat :: unescape rest := by
  rw [unescape]
  rintro high low rest rfl
  exact absurd rfl other

theorem unescape_escape (byte : UInt8) (rest : Text) :
    unescape (escape byte ++ rest) = byte :: unescape rest := by
  have small := byte.toNat_lt
  unfold escape
  split_ifs with kept
  · have other : Char.ofNat byte.toNat ≠ '%' := by
      intro same
      have code := congrArg Char.toNat same
      rw [code_of_byte] at code
      have known : byte = UInt8.ofNat 37 := by
        rw [← UInt8.ofNat_toNat (x := byte), code]
        rfl
      rw [known] at kept
      cases kept
    rw [List.singleton_append, unescape_plain other, code_of_byte, UInt8.ofNat_toNat]
  · have whole : escaped (digit (byte.toNat / 16)) (digit (byte.toNat % 16)) = some byte := by
      rw [escaped, hex_digit _ (by omega), hex_digit _ (by omega)]
      simp only [Option.bind_some, Option.map_some]
      rw [Nat.div_add_mod' byte.toNat 16, UInt8.ofNat_toNat]
    simp only [List.cons_append, List.nil_append]
    rw [unescape, whole]

theorem unescape_flat {write : UInt8 → Text}
    (each : ∀ byte rest, unescape (write byte ++ rest) = byte :: unescape rest) (bytes : List UInt8) :
    unescape (bytes.flatMap write) = bytes := by
  induction bytes with
  | nil => rfl
  | cons byte rest induction => rw [List.flatMap_cons, each, induction]

theorem unescape_ascii {text : Text} (low : ∀ char ∈ text, ascii char = true) (bare : '%' ∉ text) :
    unescape text = text.encodeUtf8 := by
  induction text with
  | nil => rfl
  | cons char rest induction =>
      rw [List.forall_mem_cons] at low
      rw [List.mem_cons, not_or] at bare
      have size : char.utf8Size = 1 := by
        rw [Char.utf8Size_eq_one_iff]
        exact Nat.le_of_lt_succ (of_decide_eq_true low.1)
      rw [unescape_plain (Ne.symm bare.1), induction low.2 bare.2, Text.encodeUtf8,
        Text.encodeUtf8, List.flatMap_cons, String.utf8EncodeChar_eq_singleton size]
      rfl

theorem unquote_ascii {text : Text} (low : ∀ char ∈ text, ascii char = true) :
    unquote text = Text.decodeUtf8 (unescape text) := by
  unfold unquote
  split_ifs with marked
  · have alike : text.IsChain fun left right => ascii left == ascii right := by
      apply List.Pairwise.isChain
      rw [List.pairwise_iff_forall_sublist]
      intro left right both
      rw [low left (both.subset (by simp)), low right (both.subset (by simp))]
      rfl
    have one : runs text = [text] := List.splitBy_of_isChain (List.ne_nil_of_mem marked) alike
    rw [one, List.flatMap_singleton, if_pos (List.all_eq_true.mpr low)]
  · rw [unescape_ascii low marked, Text.decode_encode]

theorem unquote_quote (text : Text) : unquote (quote text) = text := by
  have low : ∀ char ∈ quote text, ascii char = true := fun char member =>
    safe_ascii (quote_safe text char member)
  rw [unquote_ascii low, quote, unescape_flat unescape_escape, Text.decode_encode]

/-- What `quote_plus` writes for a byte, once a plus is read as a blank. -/
def blanked (byte : UInt8) : Text := if byte = 0x20 then [' '] else escape byte

theorem quote_plus_blanked (text : Text) :
    (quotePlus text).map (fun char => if char = '+' then ' ' else char) =
      text.encodeUtf8.flatMap blanked := by
  rw [quotePlus, List.map_flatMap]
  apply congrArg (List.flatMap · text.encodeUtf8)
  funext byte
  unfold blanked
  split_ifs with blank
  · rfl
  · have kept : ∀ char ∈ escape byte, (if char = '+' then ' ' else char) = id char := by
      intro char member
      apply if_neg
      rintro rfl
      exact absurd (escape_safe byte '+' member) (by decide)
    rw [List.map_congr_left kept, List.map_id]

theorem blanked_ascii (byte : UInt8) : ∀ char ∈ blanked byte, ascii char = true := by
  unfold blanked
  split_ifs
  · intro char member
    rw [List.mem_singleton.mp member]
    decide
  · exact fun char member => safe_ascii (escape_safe byte char member)

theorem unescape_blanked (byte : UInt8) (rest : Text) :
    unescape (blanked byte ++ rest) = byte :: unescape rest := by
  unfold blanked
  split_ifs with blank
  · rw [blank, List.singleton_append, unescape_plain (by decide)]
    rfl
  · exact unescape_escape byte rest

theorem unquote_plus_quote_plus (text : Text) : unquotePlus (quotePlus text) = text := by
  have low : ∀ char ∈ text.encodeUtf8.flatMap blanked, ascii char = true := by
    intro char member
    obtain ⟨byte, -, inside⟩ := List.mem_flatMap.mp member
    exact blanked_ascii byte char inside
  rw [unquotePlus, quote_plus_blanked, unquote_ascii low, unescape_flat unescape_blanked,
    Text.decode_encode]

theorem pair_written (entry : Text × Text) : pair (written entry) = some entry := by
  have bare : '=' ∉ quotePlus entry.1 := fun member =>
    (quote_plus_plain entry.1 '=' member).2.2.2 rfl
  have cut : Text.partition '=' (written entry) = (quotePlus entry.1, true, quotePlus entry.2) := by
    rw [written, Text.partition_append bare, Text.partition_self, List.append_nil]
  rw [pair, if_neg (by simp [written]), nameOf, cut, unquote_plus_quote_plus,
    unquote_plus_quote_plus]

theorem parse_urlencode (entries : List (Text × Text)) : parseQsl (urlencode entries) = entries := by
  by_cases none : entries = []
  · rw [none]
    rfl
  · have each : pair ∘ written = some := funext pair_written
    rw [parseQsl, split_urlencode none, List.filterMap_map, each, List.filterMap_some]

theorem parse_qsl_append (first second : Text) :
    parseQsl (first ++ '&' :: second) = parseQsl first ++ parseQsl second := by
  rw [parseQsl, List.splitOn_append_cons_self, List.filterMap_append]
  rfl

theorem urlencode_eq_nil (entries : List (Text × Text)) : urlencode entries = [] ↔ entries = [] := by
  constructor
  · intro nothing
    rw [← parse_urlencode entries, nothing]
    rfl
  · intro none
    rw [none]
    rfl

section Cuts

variable {cut char : Char} {text : Text}

theorem partition_front (mark : Char) (text : Text) : mark ∉ (Text.partition mark text).1 := by
  have same : (Text.partition mark text).1 = text.takeWhile (· ≠ mark) := by
    unfold Text.partition
    dsimp only
    split <;> rfl
  rw [same]
  exact fun member => by simpa using List.mem_takeWhile_imp member

theorem partition_mem_front (member : char ∈ (Text.partition cut text).1) : char ∈ text := by
  have same : (Text.partition cut text).1 = text.takeWhile (· ≠ cut) := by
    unfold Text.partition
    dsimp only
    split <;> rfl
  rw [same] at member
  exact (List.takeWhile_sublist _).subset member

theorem rpartition_back (cut : Char) (text : Text) :
    cut ∉ (rpartition cut text).2.2 ∧ ∀ char ∈ (rpartition cut text).2.2, char ∈ text := by
  have front := partition_front cut text.reverse
  have inside : ∀ char ∈ (Text.partition cut text.reverse).1, char ∈ text := fun char member =>
    List.mem_reverse.mp (partition_mem_front member)
  unfold rpartition
  dsimp only
  split_ifs with found
  · exact ⟨fun member => front (List.mem_reverse.mp member),
      fun char member => inside char (List.mem_reverse.mp member)⟩
  · refine ⟨fun member => ?_, fun char member => member⟩
    -- without a cut the front is the whole text
    have whole : (Text.partition cut text.reverse).1 = text.reverse := by
      unfold Text.partition at found ⊢
      dsimp only at found ⊢
      split at found
      · next none =>
          exact List.takeWhile_eq_self_iff.mpr (List.dropWhile_eq_nil_iff.mp none)
      · exact absurd rfl found
    rw [whole] at front
    exact front (List.mem_reverse.mpr member)

theorem partition_bare (bare : cut ∉ text) : Text.partition cut text = (text, false, []) := by
  have whole := Text.partition_append bare []
  rw [List.append_nil] at whole
  rw [whole]
  simp [Text.partition]

theorem rpartition_bare (bare : cut ∉ text) : rpartition cut text = ([], false, text) := by
  rw [rpartition, partition_bare (by simpa using bare)]
  rfl

theorem rpartition_last {tail : Text} (bare : cut ∉ tail) (head : Text) :
    rpartition cut (head ++ cut :: tail) = (head, true, tail) := by
  have turned : (head ++ cut :: tail).reverse = tail.reverse ++ cut :: head.reverse := by simp
  rw [rpartition, turned, Text.partition_append (by simpa using bare), Text.partition_self]
  simp

theorem split_scheme_skip {front : Text} (bare : ':' ∉ front) (rest : Text) :
    splitScheme (front ++ rest) = none ↔ splitScheme rest = none := by
  induction front with
  | nil => rfl
  | cons char front induction =>
      rw [List.mem_cons, not_or] at bare
      rw [List.cons_append, splitScheme, if_neg fun here => bare.1 here.1.symm,
        Option.map_eq_none_iff, induction bare.2]

theorem split_scheme_eq {scheme rest : Text} (found : splitScheme text = some (scheme, rest)) :
    text = scheme ++ ':' :: '/' :: '/' :: rest := by
  induction text generalizing scheme with
  | nil => cases found
  | cons char more induction =>
      rw [splitScheme] at found
      split_ifs at found with here
      · cases found
        have slashes := List.take_append_drop 2 more
        rw [here.2] at slashes
        rw [here.1, List.nil_append, ← slashes]
        rfl
      · obtain ⟨⟨front, last⟩, below, same⟩ := Option.map_eq_some_iff.mp found
        cases same
        rw [induction below, List.cons_append]

theorem split_scheme_front {scheme rest : Text} (found : splitScheme text = some (scheme, rest)) :
    splitScheme scheme = none := by
  induction text generalizing scheme with
  | nil => cases found
  | cons char more induction =>
      rw [splitScheme] at found
      split_ifs at found with here
      · cases found
        rfl
      · obtain ⟨⟨front, last⟩, below, same⟩ := Option.map_eq_some_iff.mp found
        cases same
        have none := induction below
        rw [splitScheme, if_neg, Option.map_eq_none_iff]
        · exact none
        · -- the first two characters are those of the whole text, up to its mark
          rintro ⟨colon, slashes⟩
          apply here
          refine ⟨colon, ?_⟩
          rcases front with _ | ⟨first, _ | ⟨second, others⟩⟩
          · cases slashes
          · cases slashes
          · have shape := split_scheme_eq below
            rw [shape]
            simpa using slashes

end Cuts

end XRootDClient.Lib.Percent
