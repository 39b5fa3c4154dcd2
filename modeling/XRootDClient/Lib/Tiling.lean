import Mathlib.Data.List.Basic
import Mathlib.Tactic.Ring

/-!
Ranges given by offset and length that stand back to back: they start where the
first starts, no range is empty, and each begins where the one before it ends.
An index between the start and the stop is in exactly one of them.
-/

set_option autoImplicit false

namespace XRootDClient.Lib.Tiling

/-- The ranges cover what is between the start and the stop, in order and without
a gap. -/
inductive Tiles : Nat → Nat → List (Nat × Nat) → Prop
  | done (stop : Nat) : Tiles stop stop []
  | next {stop : Nat} {rest : List (Nat × Nat)} (start length : Nat) (positive : 0 < length)
      (after : Tiles (start + length) stop rest) : Tiles start stop ((start, length) :: rest)

def Covers (range : Nat × Nat) (index : Nat) : Prop :=
  range.1 ≤ index ∧ index < range.1 + range.2

variable {start stop : Nat} {ranges : List (Nat × Nat)}

theorem Tiles.ordered (tiles : Tiles start stop ranges) : start ≤ stop := by
  induction tiles with
  | done => exact Nat.le_refl _
  | next start length positive after ordered => omega

theorem Tiles.bounds (tiles : Tiles start stop ranges) :
    ∀ range ∈ ranges, start ≤ range.1 ∧ 0 < range.2 ∧ range.1 + range.2 ≤ stop := by
  induction tiles with
  | done => simp
  | next start length positive after bounds =>
      intro range member
      have ordered := after.ordered
      rcases List.mem_cons.mp member with rfl | later
      · exact ⟨Nat.le_refl _, positive, ordered⟩
      · obtain ⟨first, some, last⟩ := bounds range later
        exact ⟨by omega, some, last⟩

theorem Tiles.covered (tiles : Tiles start stop ranges) {index : Nat} (first : start ≤ index)
    (last : index < stop) : ∃ range ∈ ranges, Covers range index := by
  induction tiles with
  | done => omega
  | next start length positive after covered =>
      by_cases here : index < start + length
      · exact ⟨(start, length), List.mem_cons_self, first, here⟩
      · obtain ⟨range, member, covers⟩ := covered (by omega) last
        exact ⟨range, List.mem_cons_of_mem _ member, covers⟩

theorem Tiles.disjoint (tiles : Tiles start stop ranges) :
    ranges.Pairwise fun one two => one.1 + one.2 ≤ two.1 := by
  induction tiles with
  | done => exact .nil
  | next start length positive after disjoint =>
      exact .cons (fun range member => (after.bounds range member).1) disjoint

theorem Tiles.total (tiles : Tiles start stop ranges) :
    (ranges.map Prod.snd).sum = stop - start := by
  induction tiles with
  | done => simp
  | next start length positive after total =>
      have ordered := after.ordered
      rw [List.map_cons, List.sum_cons, total]
      dsimp only
      omega

end XRootDClient.Lib.Tiling
