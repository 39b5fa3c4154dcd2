import Mathlib.Data.Char
import Mathlib.Data.List.Lex
import Mathlib.Data.List.Sort
import Mathlib.Data.Prod.Lex
import XRootDClient.Lib.Query

/-!
# The order of texts, and of texts that are quoted

Texts are compared character by character. UTF-8 keeps that order and so does a
hexadecimal escape, but an escape begins with a mark that is below every character that
is left bare: where one text goes on with a bare character and the other with a higher
one that is escaped, quoting turns the two around.
-/

set_option autoImplicit false

namespace XRootDClient.Lib.Collation

open Percent

section Parting

variable {Item Other : Type*} [LT Item] [LT Other]

/-- The left list is below where the two part, so that neither goes on from the other. -/
def Parts : List Item → List Item → Prop
  | left :: lefts, right :: rights => left < right ∨ left = right ∧ Parts lefts rights
  | _, _ => False

theorem Parts.append {lefts rights : List Item} (parts : Parts lefts rights)
    (more others : List Item) : Parts (lefts ++ more) (rights ++ others) := by
  fun_induction Parts lefts rights with
  | case1 left lefts right rights induction =>
      rcases parts with below | ⟨rfl, later⟩
      · exact Or.inl below
      · exact Or.inr ⟨rfl, induction later⟩
  | case2 => exact parts.elim

theorem Parts.behind (front : List Item) {lefts rights : List Item} (parts : Parts lefts rights) :
    Parts (front ++ lefts) (front ++ rights) := by
  induction front with
  | nil => exact parts
  | cons item front induction => exact Or.inr ⟨rfl, induction⟩

theorem Parts.below {lefts rights : List Item} (parts : Parts lefts rights) : lefts < rights := by
  fun_induction Parts lefts rights with
  | case1 left lefts right rights induction =>
      rw [List.cons_lt_cons_iff]
      exact parts.imp id fun ⟨same, later⟩ => ⟨same, induction later⟩
  | case2 => exact parts.elim

theorem Parts.flatMap {write : Item → List Other} {lefts rights : List Item}
    (parts : Parts lefts rights)
    (each : ∀ left ∈ lefts, ∀ right ∈ rights, left < right → Parts (write left) (write right)) :
    Parts (lefts.flatMap write) (rights.flatMap write) := by
  fun_induction Parts lefts rights with
  | case1 left lefts right rights induction =>
      rw [List.flatMap_cons, List.flatMap_cons]
      rcases parts with below | ⟨rfl, later⟩
      · exact (each left (by simp) right (by simp) below).append _ _
      · apply Parts.behind
        exact induction later fun low inside high among =>
          each low (List.mem_cons_of_mem _ inside) high (List.mem_cons_of_mem _ among)
  | case2 => exact parts.elim

end Parting

theorem encode_parts {left right : Char} (below : left < right) :
    Parts (String.utf8EncodeChar left) (String.utf8EncodeChar right) := by
  have lower : left.val.toNat < right.val.toNat := below
  have top : right.val.toNat < 0x110000 := by
    rcases right.valid with small | ⟨-, small⟩
    · exact Nat.lt_trans small (by decide)
    · exact small
  unfold String.utf8EncodeChar
  dsimp only
  generalize left.val.toNat = low at lower
  generalize right.val.toNat = high at lower top
  have step {low high : Nat} (lower : low < high) :
      low / 64 < high / 64 ∨ low / 64 = high / 64 ∧ low % 64 < high % 64 := by omega
  -- six bits at a time, from the last
  have second (below : low / 64 < high / 64) : low / 4096 < high / 4096 ∨
      low / 4096 = high / 4096 ∧ low / 64 % 64 < high / 64 % 64 := by
    simpa only [Nat.div_div_eq_div_mul] using step below
  have third (below : low / 4096 < high / 4096) : low / 262144 < high / 262144 ∨
      low / 262144 = high / 262144 ∧ low / 4096 % 64 < high / 4096 % 64 := by
    simpa only [Nat.div_div_eq_div_mul] using step below
  have first := step lower
  split_ifs <;>
    simp only [Parts, UInt8.lt_iff_toNat_lt, ← UInt8.toNat_inj, UInt8.toNat_ofNat', and_false,
      or_false] <;>
    simp (disch := omega) only [Nat.mod_eq_of_lt] <;>
    omega

theorem digit_below : ∀ high < 16, ∀ low < high, digit low < digit high := by decide

theorem escape_parts {left right : UInt8} (below : left < right) (first : unreserved left = false)
    (second : unreserved right = false) : Parts (escape left) (escape right) := by
  have lower : left.toNat < right.toNat := below
  have small := right.toNat_lt
  unfold escape
  rw [if_neg (by simp [first]), if_neg (by simp [second])]
  right
  refine ⟨rfl, ?_⟩
  by_cases same : left.toNat / 16 = right.toNat / 16
  · right
    refine ⟨by rw [same], Or.inl ?_⟩
    exact digit_below _ (by omega) _ (by omega)
  · left
    exact digit_below _ (by omega) _ (by omega)

def bare (char : Char) : Bool := ascii char && unreserved (UInt8.ofNat char.toNat)

theorem encode_ascii {char : Char} (low : ascii char = true) :
    String.utf8EncodeChar char = [UInt8.ofNat char.toNat] := by
  have size : char.utf8Size = 1 := by
    rw [Char.utf8Size_eq_one_iff]
    exact Nat.le_of_lt_succ (of_decide_eq_true low)
  rw [String.utf8EncodeChar_eq_singleton size]
  rfl

theorem quote_cons (char : Char) (rest : Text) : quote (char :: rest) = quote [char] ++ quote rest := by
  simp [quote, Text.encodeUtf8]

theorem quote_bare {char : Char} (kept : bare char = true) : quote [char] = [char] := by
  rw [bare, Bool.and_eq_true] at kept
  have code : (UInt8.ofNat char.toNat).toNat = char.toNat := by
    have low := of_decide_eq_true kept.1
    rw [UInt8.toNat_ofNat']
    omega
  rw [quote, Text.encodeUtf8, List.flatMap_singleton, encode_ascii kept.1, List.flatMap_singleton,
    escape, if_pos kept.2, code, Char.ofNat_toNat]

theorem encode_escaped {char : Char} (marked : bare char = false) :
    ∀ byte ∈ String.utf8EncodeChar char, unreserved byte = false := by
  intro byte member
  by_cases low : ascii char = true
  · rw [encode_ascii low, List.mem_singleton] at member
    rw [bare, low, Bool.true_and] at marked
    rw [member, marked]
  · have wide : 0x7f < char.val.toNat := by
      have code : ¬char.toNat < 0x80 := fun small => low (decide_eq_true small)
      rw [Char.toNat] at code
      omega
    have high : 0x80 ≤ byte.toNat := by
      unfold String.utf8EncodeChar at member
      dsimp only at member
      generalize char.val.toNat = code at wide member
      split_ifs at member <;>
        simp only [List.mem_cons, List.not_mem_nil, or_false] at member <;>
        first
          | omega
          | (rcases member with rfl | rfl | rfl | rfl <;> rw [UInt8.toNat_ofNat'] <;> omega)
    rw [← Bool.not_eq_true]
    intro kept
    have small := unreserved_ascii kept
    omega

theorem quote_escaped {char : Char} (marked : bare char = false) :
    ∃ rest, quote [char] = '%' :: rest := by
  have bytes : String.utf8EncodeChar char ≠ [] := by
    rw [← List.length_pos_iff, String.length_utf8EncodeChar]
    exact char.utf8Size_pos
  obtain ⟨byte, rest, shape⟩ := List.exists_cons_of_ne_nil bytes
  have escaped := encode_escaped marked byte (by simp [shape])
  rw [quote, Text.encodeUtf8, List.flatMap_singleton, shape, List.flatMap_cons, escape,
    if_neg (by simp [escaped])]
  exact ⟨_, rfl⟩

theorem mark_below {char : Char} (kept : bare char = true) : '%' < char := by
  rw [bare, Bool.and_eq_true] at kept
  have low : char.toNat < 0x80 := of_decide_eq_true kept.1
  have range := kept.2
  simp only [unreserved, UInt8.toNat_ofNat', Bool.or_eq_true, Bool.and_eq_true,
    decide_eq_true_eq, beq_iff_eq] at range
  have code : '%'.toNat < char.toNat := by
    have mark : '%'.toNat = 37 := rfl
    omega
  exact code

/-- Two characters are quoted in their order, unless the higher one alone is escaped. -/
theorem quote_parts {left right : Char} (below : left < right)
    (straight : bare left = true → bare right = true) :
    Parts (quote [left]) (quote [right]) := by
  cases first : bare left with
  | true =>
      rw [quote_bare first, quote_bare (straight first)]
      exact Or.inl below
  | false =>
      cases second : bare right with
      | true =>
          obtain ⟨rest, shape⟩ := quote_escaped first
          rw [shape, quote_bare second]
          exact Or.inl (mark_below second)
      | false =>
          rw [quote, quote, Text.encodeUtf8, Text.encodeUtf8, List.flatMap_singleton,
            List.flatMap_singleton]
          apply (encode_parts below).flatMap
          intro low inside high among lower
          exact escape_parts lower (encode_escaped first low inside) (encode_escaped second high among)

/-- Whether two texts first differ at a bare character and a higher one that is escaped. -/
def turned : Text → Text → Bool
  | left :: lefts, right :: rights =>
      if left = right then turned lefts rights else left < right && bare left && !bare right
  | _, _ => false

theorem turned_below {left right : Text} (crossed : turned left right = true) : left < right := by
  fun_induction turned left right with
  | case1 lefts right rights induction =>
      rw [List.cons_lt_cons_iff]
      exact Or.inr ⟨rfl, induction crossed⟩
  | case2 left lefts right rights other =>
      simp only [Bool.and_eq_true, decide_eq_true_eq] at crossed
      rw [List.cons_lt_cons_iff]
      exact Or.inl crossed.1.1
  | case3 => cases crossed

theorem quote_turned {left right : Text} (crossed : turned left right = true) :
    quote right < quote left := by
  fun_induction turned left right with
  | case1 lefts right rights induction =>
      rw [quote_cons right rights, quote_cons right lefts]
      exact List.append_left_lt (induction crossed)
  | case2 left lefts right rights other =>
      simp only [Bool.and_eq_true, Bool.not_eq_true'] at crossed
      obtain ⟨rest, shape⟩ := quote_escaped crossed.2
      rw [quote_cons left, quote_cons right, shape, quote_bare crossed.1.2]
      exact List.Lex.rel (mark_below crossed.1.2)
  | case3 => cases crossed

theorem quote_straight {left right : Text} (below : left < right)
    (straight : turned left right = false) : quote left < quote right := by
  induction left generalizing right with
  | nil =>
      have some : right ≠ [] := by
        rintro rfl
        cases below
      obtain ⟨char, rest, shape⟩ := List.exists_cons_of_ne_nil (quote_some some)
      rw [shape]
      exact List.Lex.nil
  | cons first lefts induction =>
      cases right with
      | nil => cases below
      | cons second rights =>
          rw [List.cons_lt_cons_iff] at below
          rw [turned] at straight
          rw [quote_cons first, quote_cons second]
          rcases below with lower | ⟨rfl, later⟩
          · rw [if_neg (Char.ne_of_lt lower)] at straight
            apply Parts.below
            apply Parts.append
            apply quote_parts lower
            intro kept
            simpa [lower, kept] using straight
          · rw [if_pos rfl] at straight
            exact List.append_left_lt (induction later straight)

/-- Pairs are compared by the first, and by the second where that is the same. -/
def before (left right : Text × Text) : Bool := toLex left ≤ toLex right

/-- `sorted(pairs)`. -/
def sorted (pairs : List (Text × Text)) : List (Text × Text) := pairs.mergeSort before

theorem sorted_perm (pairs : List (Text × Text)) : (sorted pairs).Perm pairs :=
  List.mergeSort_perm pairs before

theorem sorted_pairwise (pairs : List (Text × Text)) :
    (sorted pairs).Pairwise fun left right => toLex left ≤ toLex right := by
  have rising : (sorted pairs).Pairwise fun left right => before left right = true := by
    apply List.pairwise_mergeSort
    · intro first second third lower upper
      exact decide_eq_true ((of_decide_eq_true lower).trans (of_decide_eq_true upper))
    · intro left right
      rw [Bool.or_eq_true]
      exact (le_total (toLex left) (toLex right)).imp decide_eq_true decide_eq_true
  exact rising.imp of_decide_eq_true

theorem sorted_of_pairwise {pairs listed : List (Text × Text)} (same : listed.Perm pairs)
    (rising : listed.Pairwise fun left right => toLex left ≤ toLex right) : listed = sorted pairs := by
  apply (same.trans (sorted_perm pairs).symm).eq_of_pairwise _ rising (sorted_pairwise pairs)
  intro left right _ _ lower upper
  exact toLex.injective (le_antisymm lower upper)

theorem either_first {Item : Type*} {Before : Item → Item → Prop} {items : List Item}
    (ordered : items.Pairwise Before) {left right : Item} (inside : left ∈ items)
    (among : right ∈ items) (other : left ≠ right) : Before left right ∨ Before right left := by
  have symmetric : Std.Symm fun left right => Before left right ∨ Before right left :=
    ⟨fun _ _ => Or.symm⟩
  have both : items.Pairwise fun left right => Before left right ∨ Before right left :=
    ordered.imp Or.inl
  exact both.forall inside among other

theorem names_perm (pairs : List (Text × Text)) :
    ((sorted pairs).map Prod.fst).Perm (pairs.map Prod.fst) := (sorted_perm pairs).map _

theorem names_rise_iff (pairs : List (Text × Text)) :
    ((sorted pairs).map Prod.fst).Pairwise (· < ·) ↔ (pairs.map Prod.fst).Nodup := by
  rw [← (names_perm pairs).nodup_iff]
  constructor
  · exact fun rising => rising.imp fun below => ne_of_lt below
  · intro once
    rw [List.pairwise_map]
    rw [List.Nodup, List.pairwise_map] at once
    apply (once.and (sorted_pairwise pairs)).imp
    rintro left right ⟨other, lower⟩
    rcases Prod.Lex.le_iff.mp lower with below | ⟨same, -⟩
    · exact below
    · exact absurd same other

def quoted (pair : Text × Text) : Text × Text := (quote pair.1, quote pair.2)

theorem quoted_injective : Function.Injective quoted := by
  intro left right same
  have first := congrArg (unquote ∘ Prod.fst) same
  have second := congrArg (unquote ∘ Prod.snd) same
  simp only [quoted, Function.comp, unquote_quote] at first second
  exact Prod.ext first second

/-- Sorting and then quoting is quoting and then sorting where no two names are turned
around. -/
theorem quoted_sorted_iff {pairs : List (Text × Text)} (once : (pairs.map Prod.fst).Nodup) :
    (sorted pairs).map quoted = sorted (pairs.map quoted) ↔
      ∀ left ∈ pairs, ∀ right ∈ pairs, turned left.1 right.1 = false := by
  have rising := List.pairwise_map.mp ((names_rise_iff pairs).mpr once)
  constructor
  · intro same left inside right among
    have written : ((sorted pairs).map quoted).Pairwise fun left right => toLex left ≤ toLex right := by
      rw [same]
      exact sorted_pairwise _
    rw [List.pairwise_map] at written
    rw [← Bool.not_eq_true]
    intro crossed
    have below := turned_below crossed
    have other : left ≠ right := fun same => ne_of_lt below (congrArg Prod.fst same)
    have first := either_first (rising.and written) ((sorted_perm pairs).mem_iff.mpr inside)
      ((sorted_perm pairs).mem_iff.mpr among) other
    rcases first with ⟨-, lower⟩ | ⟨wrong, -⟩
    · rcases Prod.Lex.le_iff.mp lower with first | ⟨equal, -⟩
      · exact lt_asymm first (quote_turned crossed)
      · exact absurd equal (ne_of_gt (quote_turned crossed))
    · exact lt_asymm wrong below
  · intro straight
    apply sorted_of_pairwise ((sorted_perm pairs).map quoted)
    rw [List.pairwise_map]
    apply rising.imp_of_mem
    intro left right inside among below
    apply Prod.Lex.le_iff.mpr
    left
    apply quote_straight below
    exact straight left ((sorted_perm pairs).mem_iff.mp inside) right
      ((sorted_perm pairs).mem_iff.mp among)

end XRootDClient.Lib.Collation
