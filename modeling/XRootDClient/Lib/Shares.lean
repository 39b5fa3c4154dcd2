import Mathlib.Data.List.GetD
import Mathlib.Data.List.Perm.Basic
import XRootDClient.Lib.Extent

/-!
Contents cut at rising bounds: the pieces between one bound and the next put together
again, equal shares whose last may be short, and slices of one size. A shuffle of
places takes every item once.
-/

set_option autoImplicit false

namespace XRootDClient.Lib.Shares

open Extent

variable {Item : Type*} (content : List Item)

theorem pieces_joined {bound : Nat → Nat} (rising : ∀ index, bound index ≤ bound (index + 1))
    (count : Nat) :
    (List.range count).flatMap
        (fun index => fetch content (bound index) (bound (index + 1) - bound index)) =
      fetch content (bound 0) (bound count - bound 0) := by
  induction count with
  | zero => rw [Nat.sub_self]; rfl
  | succ count induction =>
      have low : bound 0 ≤ bound count := by
        clear induction
        induction count with
        | zero => exact Nat.le_refl _
        | succ count induction => exact Nat.le_trans induction (rising count)
      have high := rising count
      have here : bound 0 + (bound count - bound 0) = bound count := by omega
      have joined := fetch_append content (bound 0) (bound count - bound 0)
        (bound (count + 1) - bound count)
      have total : bound count - bound 0 + (bound (count + 1) - bound count) =
          bound (count + 1) - bound 0 := by omega
      rw [here, total] at joined
      rw [List.range_succ, List.flatMap_append, induction, List.flatMap_singleton, joined]

def share (total count : Nat) : Nat := (total + count - 1) / count

def shareBound (start stop count index : Nat) : Nat := min (start + index * share (stop - start) count) stop

theorem share_enough {total count : Nat} (positive : 0 < count) : total ≤ count * share total count := by
  have whole := Nat.div_add_mod (total + count - 1) count
  have below := Nat.mod_lt (total + count - 1) positive
  rw [share]
  omega

theorem share_rounded {total count : Nat} (positive : 0 < count) :
    -(-(total : Int) / count) = share total count := by
  have low := Int.mul_ediv_add_emod (-(total : Int)) count
  have rest := Int.emod_nonneg (-(total : Int)) (show (count : Int) ≠ 0 by omega)
  have high := Int.emod_lt_of_pos (-(total : Int)) (show (0 : Int) < count by omega)
  have whole := Nat.div_add_mod (total + count - 1) count
  have below := Nat.mod_lt (total + count - 1) positive
  rw [share]
  generalize (total + count - 1) / count = taken at whole ⊢
  generalize -(total : Int) / count = given at low ⊢
  have sum : (count : Int) * (given + taken) = count * given + (count * taken : Nat) := by
    rw [Int.mul_add, Int.natCast_mul]
  have upper : given + taken < 1 := by
    apply Int.lt_of_mul_lt_mul_left (a := (count : Int)) _ (by omega)
    omega
  have lower : -1 < given + taken := by
    apply Int.lt_of_mul_lt_mul_left (a := (count : Int)) _ (by omega)
    omega
  omega

theorem shares_joined {start stop count : Nat} (positive : 0 < count) (ordered : start ≤ stop) :
    (List.range count).flatMap (fun index =>
        fetch content (shareBound start stop count index)
          (shareBound start stop count (index + 1) - shareBound start stop count index)) =
      fetch content start (stop - start) := by
  have rising : ∀ index, shareBound start stop count index ≤ shareBound start stop count (index + 1) := by
    intro index
    have more : index * share (stop - start) count ≤ (index + 1) * share (stop - start) count :=
      Nat.mul_le_mul_right _ (Nat.le_succ index)
    rw [shareBound, shareBound]
    omega
  have first : shareBound start stop count 0 = start := by
    rw [shareBound, Nat.zero_mul]
    omega
  have last : shareBound start stop count count = stop := by
    have enough := @share_enough (stop - start) count positive
    rw [shareBound]
    omega
  rw [pieces_joined content rising count, first, last]

def slices (size : Nat) : List (List Item) :=
  (List.range (share content.length size)).map fun index => fetch content (index * size) size

@[simp] theorem slices_length (size : Nat) :
    (slices content size).length = share content.length size := by
  rw [slices, List.length_map, List.length_range]

theorem slices_joined {size : Nat} (positive : 0 < size) : (slices content size).flatten = content := by
  have rising : ∀ index, index * size ≤ (index + 1) * size := fun index =>
    Nat.mul_le_mul_right _ (Nat.le_succ index)
  have joined := pieces_joined content rising (share content.length size)
  have each : ∀ index, (index + 1) * size - index * size = size := by
    intro index
    rw [Nat.succ_mul]
    omega
  have enough : content.length ≤ share content.length size * size := by
    rw [Nat.mul_comm]
    exact share_enough positive
  simp only [each, Nat.zero_mul, Nat.sub_zero] at joined
  rw [slices, ← List.flatMap_def, joined, fetch_all content (by omega), List.drop_zero]

variable {content}

theorem shuffled_perm {order : List Nat} (permutes : order.Perm (List.range content.length))
    (hole : Item) : (order.map fun place => content.getD place hole).Perm content := by
  have straight : ((List.range content.length).map fun place => content.getD place hole) = content := by
    apply List.ext_getElem
    · rw [List.length_map, List.length_range]
    · intro index first second
      rw [List.getElem_map, List.getElem_range, List.getD_eq_getElem _ _ second]
  have moved := permutes.map fun place => content.getD place hole
  rwa [straight] at moved

theorem gathered_perm {First Second : Type*} (rows : List First) (columns : List Second)
    (gather : First → Second → List Item) :
    (rows.flatMap fun row => columns.flatMap (gather row)).Perm
      (columns.flatMap fun column => rows.flatMap fun row => gather row column) := by
  induction rows with
  | nil => simp
  | cons row rest induction =>
      have apart := List.flatMap_append_perm columns (gather row)
        fun column => rest.flatMap fun row => gather row column
      exact (induction.append_left _).trans apart

end XRootDClient.Lib.Shares
