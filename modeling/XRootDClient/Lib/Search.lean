import Mathlib.Data.List.Infix

/-!
The first place where a list stands in another. Behind a front it is found where the
front ends, if it is not in the front and no end of the front begins it and overlaps
with itself.
-/

set_option autoImplicit false

namespace XRootDClient.Lib.Search

variable {Item : Type*} [BEq Item] [LawfulBEq Item]

/-- `hay.find(needle)`. -/
def find (needle : List Item) : List Item → Option Nat
  | [] => if needle.isEmpty then some 0 else none
  | item :: rest =>
      if needle.isPrefixOf (item :: rest) then some 0 else (find needle rest).map (· + 1)

/-- `hay.find(needle, start)`. -/
def findFrom (needle hay : List Item) (start : Nat) : Option Nat :=
  (find needle (hay.drop start)).map (· + start)

theorem find_here {needle hay : List Item} (here : needle <+: hay) : find needle hay = some 0 := by
  cases hay with
  | nil => rw [find, List.prefix_nil.mp here]; rfl
  | cons item rest => rw [find, if_pos (List.isPrefixOf_iff_prefix.mpr here)]

theorem find_behind {needle front back : List Item}
    (before : ∀ place < front.length, ¬ needle <+: (front ++ back).drop place)
    (behind : needle <+: back) : find needle (front ++ back) = some front.length := by
  induction front with
  | nil => exact find_here behind
  | cons item rest induction =>
      have first : ¬ needle <+: item :: (rest ++ back) := before 0 (Nat.succ_pos _)
      have later := induction fun place inside => before (place + 1) (Nat.succ_lt_succ inside)
      rw [List.cons_append, find, if_neg (fun here => first (List.isPrefixOf_iff_prefix.mp here)),
        later]
      rfl

/-- A front that neither holds a list nor ends with as much of it as can be followed by
the list again has the list behind it first at its end. -/
theorem find_marked {needle front back : List Item} (absent : ¬ needle <:+: front)
    (apart : ∀ count, 0 < count → count < needle.length → needle.drop count <+: needle →
      ¬ needle.take count <:+ front) :
    find needle (front ++ (needle ++ back)) = some front.length := by
  apply find_behind ?_ (List.prefix_append _ _)
  intro place inside early
  have cut : (front ++ (needle ++ back)).drop place = front.drop place ++ (needle ++ back) :=
    List.drop_append_of_le_length (le_of_lt inside)
  have size : (front.drop place).length = front.length - place := List.length_drop
  rw [cut] at early
  by_cases long : needle.length ≤ (front.drop place).length
  · have whole : needle <+: front.drop place :=
      List.prefix_of_prefix_length_le early (List.prefix_append _ _) long
    exact absent (whole.isInfix.trans (List.drop_suffix _ _).isInfix)
  · -- the end of the front begins the list, and the rest of it begins the list again
    have begins : front.drop place <+: needle :=
      List.prefix_of_prefix_length_le (List.prefix_append _ _) early (by omega)
    have same : needle.take (front.drop place).length = front.drop place :=
      (List.prefix_iff_eq_take.mp begins).symm
    have again : needle.drop (front.drop place).length <+: needle := by
      obtain ⟨rest, parted⟩ := early
      have split := List.take_append_drop (front.drop place).length needle
      rw [same] at split
      have rest_ : needle.drop (front.drop place).length ++ rest = needle ++ back := by
        apply (List.append_right_inj (front.drop place)).mp
        rw [← List.append_assoc, split]
        exact parted
      have inner : needle.drop (front.drop place).length <+: needle ++ back := ⟨rest, rest_⟩
      exact List.prefix_of_prefix_length_le inner (List.prefix_append _ _)
        (List.length_drop ▸ Nat.sub_le _ _)
    refine apart _ (by omega) (by omega) again ?_
    rw [same]
    exact List.drop_suffix _ _

end XRootDClient.Lib.Search
