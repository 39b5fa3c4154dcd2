import Mathlib.Algebra.BigOperators.Group.Finset.Basic
import Mathlib.Tactic.Ring
import XRootDClient.Lib.Dict

/-!
Values reported under keys, of which the latest of each key counts. What they come to
depends on what each key reported, and not on how the reports of different keys are mixed.
-/

set_option autoImplicit false

namespace XRootDClient.Lib.Latest

open Lib

variable {Key : Type} [DecidableEq Key]

def latest (reports : List (Key × Int)) (key : Key) : Int :=
  ((reports.filter (·.1 = key)).getLast?.map Prod.snd).getD 0

def total (reports : List (Key × Int)) : Int :=
  ∑ key ∈ (reports.map Prod.fst).toFinset, latest reports key

def sum (dict : Dict Key Int) : Int := (dict.entries.map Prod.snd).sum

theorem sum_keys (dict : Dict Key Int) : sum dict = ∑ key ∈ dict.keys.toFinset, dict.getD key 0 := by
  rw [List.sum_toFinset _ dict.keys_nodup, sum, Dict.keys, List.map_map]
  congr 1
  apply List.map_congr_left
  intro entry member
  have found : dict.get? entry.1 = some entry.2 := (dict.get_eq_some _ _).mpr member
  rw [Function.comp_apply, Dict.getD, found]
  rfl

theorem get_update (dict : Dict Key Int) (reports : List (Key × Int)) (key : Key) :
    (dict.update reports).get? key =
      ((reports.filter (·.1 = key)).getLast?.map Prod.snd).or (dict.get? key) := by
  induction reports generalizing dict with
  | nil => rfl
  | cons report rest induction =>
      rw [Dict.update_cons, induction, Dict.get_set]
      by_cases same : report.1 = key
      · rw [if_pos same.symm, List.filter_cons_of_pos (by simpa using same), List.getLast?_cons]
        cases (rest.filter (·.1 = key)).getLast? with
        | none => rfl
        | some last => rfl
      · rw [if_neg (Ne.symm same), List.filter_cons_of_neg (by simpa using same)]

theorem sum_update (reports : List (Key × Int)) : sum (Dict.update ∅ reports) = total reports := by
  have keys : (Dict.update ∅ reports : Dict Key Int).keys.toFinset =
      (reports.map Prod.fst).toFinset := by
    ext key
    rw [List.mem_toFinset, List.mem_toFinset, Dict.mem_keys_update]
    simp
  rw [sum_keys, keys]
  apply Finset.sum_congr rfl
  intro key _
  rw [Dict.getD, get_update, latest]
  congr 1
  exact Option.or_none

end XRootDClient.Lib.Latest
