import Mathlib.Data.List.Nodup
import Mathlib.Data.List.Basic
import Mathlib.Data.List.Forall2

/-!
A dictionary that iterates in the order its keys were first inserted. The
entries carry the proof that no key occurs twice, so a lookup has at most one
answer and an erased key is gone. Overwriting a key keeps its place; inserting
a new one appends it.
-/

set_option autoImplicit false

namespace XRootDClient.Lib

structure Dict (Key Value : Type*) where
  entries : List (Key × Value)
  unique : (entries.map Prod.fst).Nodup
  deriving DecidableEq

namespace Dict

variable {Key Value Other : Type*}

def keys (dict : Dict Key Value) : List Key := dict.entries.map Prod.fst

def empty : Dict Key Value where
  entries := []
  unique := List.nodup_nil

instance : EmptyCollection (Dict Key Value) := ⟨empty⟩

instance : Inhabited (Dict Key Value) := ⟨empty⟩

theorem ext {left right : Dict Key Value} (same : left.entries = right.entries) :
    left = right := by
  cases left
  cases right
  cases same
  rfl

theorem keys_nodup (dict : Dict Key Value) : dict.keys.Nodup := dict.unique

def mapEntries (change : Key → Value → Other) (dict : Dict Key Value) : Dict Key Other where
  entries := dict.entries.map fun entry => (entry.1, change entry.1 entry.2)
  unique := by
    rw [List.map_map]
    exact dict.unique

@[simp] theorem keys_empty : (∅ : Dict Key Value).keys = [] := rfl

section Lookup

variable [DecidableEq Key]

def find (key : Key) : List (Key × Value) → Option Value
  | [] => none
  | entry :: rest => if entry.1 = key then some entry.2 else find key rest

def get? (dict : Dict Key Value) (key : Key) : Option Value := find key dict.entries

def getD (dict : Dict Key Value) (key : Key) (fallback : Value) : Value :=
  (dict.get? key).getD fallback

def contains (dict : Dict Key Value) (key : Key) : Bool := (dict.get? key).isSome

private def put (key : Key) (value : Value) : List (Key × Value) → List (Key × Value)
  | [] => [(key, value)]
  | entry :: rest => if entry.1 = key then (key, value) :: rest else entry :: put key value rest

private theorem put_keys_of_mem (key : Key) (value : Value) (entries : List (Key × Value))
    (member : key ∈ entries.map Prod.fst) :
    (put key value entries).map Prod.fst = entries.map Prod.fst := by
  induction entries with
  | nil => simp at member
  | cons entry rest induction =>
      by_cases same : entry.1 = key
      · simp [put, same]
      · have later : key ∈ rest.map Prod.fst := by
          rw [List.map_cons, List.mem_cons] at member
          exact member.resolve_left (fun equal => same equal.symm)
        simp [put, same, induction later]

private theorem put_keys_of_not_mem (key : Key) (value : Value) (entries : List (Key × Value))
    (fresh : key ∉ entries.map Prod.fst) :
    put key value entries = entries ++ [(key, value)] := by
  induction entries with
  | nil => rfl
  | cons entry rest induction =>
      rw [List.map_cons, List.mem_cons, not_or] at fresh
      have other : ¬entry.1 = key := fun equal => fresh.1 equal.symm
      simp [put, other, induction fresh.2]

private theorem put_nodup (key : Key) (value : Value) (entries : List (Key × Value))
    (unique : (entries.map Prod.fst).Nodup) :
    ((put key value entries).map Prod.fst).Nodup := by
  by_cases member : key ∈ entries.map Prod.fst
  · rw [put_keys_of_mem key value entries member]
    exact unique
  · rw [put_keys_of_not_mem key value entries member, List.map_append]
    refine List.Nodup.append unique (List.nodup_singleton _) ?_
    intro other first second
    rw [List.map_singleton, List.mem_singleton] at second
    rw [second] at first
    exact member first

/-- `dict[key] = value`. -/
def set (dict : Dict Key Value) (key : Key) (value : Value) : Dict Key Value where
  entries := put key value dict.entries
  unique := put_nodup key value dict.entries dict.unique

def erase (dict : Dict Key Value) (key : Key) : Dict Key Value where
  entries := dict.entries.filter fun entry => entry.1 ≠ key
  unique := dict.unique.sublist (List.filter_sublist.map Prod.fst)

/-- `dict.setdefault(key, value)`, without its answer. -/
def setDefault (dict : Dict Key Value) (key : Key) (value : Value) : Dict Key Value :=
  if dict.contains key then dict else dict.set key value

/-- `dict.update(entries)`. -/
def update (dict : Dict Key Value) (entries : List (Key × Value)) : Dict Key Value :=
  entries.foldl (fun dict entry => dict.set entry.1 entry.2) dict

@[simp] theorem get_empty (key : Key) : (∅ : Dict Key Value).get? key = none := rfl

theorem find_eq_none (key : Key) (entries : List (Key × Value)) :
    find key entries = none ↔ key ∉ entries.map Prod.fst := by
  induction entries with
  | nil => simp [find]
  | cons entry rest induction =>
      by_cases same : entry.1 = key
      · simp [find, same]
      · simp only [find, if_neg same, induction, List.map_cons, List.mem_cons, not_or]
        exact ⟨fun absent => ⟨fun equal => same equal.symm, absent⟩, fun both => both.2⟩

theorem get_eq_none (dict : Dict Key Value) (key : Key) :
    dict.get? key = none ↔ key ∉ dict.keys := find_eq_none key dict.entries

theorem mem_keys (dict : Dict Key Value) (key : Key) :
    key ∈ dict.keys ↔ ∃ value, dict.get? key = some value := by
  rw [← Option.ne_none_iff_exists', Ne, get_eq_none, not_not]

theorem mem_keys_of_get {dict : Dict Key Value} {key : Key} {value : Value}
    (found : dict.get? key = some value) : key ∈ dict.keys :=
  (mem_keys dict key).mpr ⟨value, found⟩

theorem find_of_mem {entries : List (Key × Value)} {key : Key} {value : Value}
    (unique : (entries.map Prod.fst).Nodup) (member : (key, value) ∈ entries) :
    find key entries = some value := by
  induction entries with
  | nil => simp at member
  | cons entry rest induction =>
      rw [List.map_cons, List.nodup_cons] at unique
      rcases List.mem_cons.mp member with same | later
      · simp [find, ← same]
      · have other : ¬entry.1 = key := by
          intro equal
          exact unique.1 (equal ▸ List.mem_map_of_mem (f := Prod.fst) later)
        simp [find, other, induction unique.2 later]

theorem mem_of_find {entries : List (Key × Value)} {key : Key} {value : Value}
    (found : find key entries = some value) : (key, value) ∈ entries := by
  induction entries with
  | nil => simp [find] at found
  | cons entry rest induction =>
      by_cases same : entry.1 = key
      · simp only [find, if_pos same, Option.some.injEq] at found
        have equal : entry = (key, value) := Prod.ext same found
        simp [equal]
      · simp only [find, if_neg same] at found
        exact List.mem_cons_of_mem _ (induction found)

theorem get_eq_some (dict : Dict Key Value) (key : Key) (value : Value) :
    dict.get? key = some value ↔ (key, value) ∈ dict.entries :=
  ⟨mem_of_find, find_of_mem dict.unique⟩

@[simp] theorem get_set_self (dict : Dict Key Value) (key : Key) (value : Value) :
    (dict.set key value).get? key = some value := by
  rw [get_eq_some]
  change (key, value) ∈ put key value dict.entries
  induction dict.entries with
  | nil => simp [put]
  | cons entry rest induction =>
      by_cases same : entry.1 = key
      · simp [put, same]
      · simp [put, same, induction]

private theorem find_put_other {key other : Key} (different : other ≠ key) (value : Value)
    (entries : List (Key × Value)) : find other (put key value entries) = find other entries := by
  induction entries with
  | nil => simp [put, find, different.symm]
  | cons entry rest induction =>
      by_cases same : entry.1 = key
      · simp [put, find, same, different.symm]
      · simp [put, find, same, induction]

theorem get_set_other (dict : Dict Key Value) {key other : Key} (different : other ≠ key)
    (value : Value) : (dict.set key value).get? other = dict.get? other :=
  find_put_other different value dict.entries

theorem get_set (dict : Dict Key Value) (key other : Key) (value : Value) :
    (dict.set key value).get? other = if other = key then some value else dict.get? other := by
  by_cases same : other = key
  · rw [same, get_set_self, if_pos rfl]
  · rw [get_set_other dict same, if_neg same]

private theorem find_filter (key other : Key) (entries : List (Key × Value)) :
    find other (entries.filter fun entry => entry.1 ≠ key) =
      if other = key then none else find other entries := by
  induction entries with
  | nil => simp [find]
  | cons entry rest induction =>
      by_cases dropped : entry.1 = key
      · rw [List.filter_cons_of_neg (by simp [dropped]), induction]
        by_cases same : other = key
        · simp [same]
        · have different : ¬entry.1 = other := fun equal => same (equal ▸ dropped)
          simp [find, same, different]
      · rw [List.filter_cons_of_pos (by simp [dropped])]
        by_cases here : entry.1 = other
        · have same : ¬other = key := fun equal => dropped (here.trans equal)
          simp [find, here, same]
        · simp only [find, if_neg here, induction]

theorem get_erase (dict : Dict Key Value) (key other : Key) :
    (dict.erase key).get? other = if other = key then none else dict.get? other :=
  find_filter key other dict.entries

@[simp] theorem get_erase_self (dict : Dict Key Value) (key : Key) :
    (dict.erase key).get? key = none := by
  rw [get_erase, if_pos rfl]

theorem get_erase_other (dict : Dict Key Value) {key other : Key} (different : other ≠ key) :
    (dict.erase key).get? other = dict.get? other := by
  rw [get_erase, if_neg different]

theorem erase_absent (dict : Dict Key Value) {key : Key} (absent : dict.get? key = none) :
    dict.erase key = dict := by
  apply ext
  change dict.entries.filter _ = dict.entries
  rw [List.filter_eq_self]
  intro entry member
  have other : entry.1 ≠ key := by
    intro same
    exact (get_eq_none dict key).mp absent (same ▸ List.mem_map_of_mem (f := Prod.fst) member)
  simpa using other

theorem mem_keys_set (dict : Dict Key Value) (key other : Key) (value : Value) :
    other ∈ (dict.set key value).keys ↔ other = key ∨ other ∈ dict.keys := by
  rw [mem_keys, mem_keys, get_set]
  by_cases same : other = key <;> simp [same]

theorem mem_keys_erase (dict : Dict Key Value) (key other : Key) :
    other ∈ (dict.erase key).keys ↔ other ≠ key ∧ other ∈ dict.keys := by
  rw [mem_keys, mem_keys, get_erase]
  by_cases same : other = key <;> simp [same]

theorem mem_keys_set_default (dict : Dict Key Value) (key other : Key) (value : Value) :
    other ∈ (dict.setDefault key value).keys ↔ other = key ∨ other ∈ dict.keys := by
  unfold setDefault
  split_ifs with known
  · refine ⟨.inr, fun either => either.elim (fun same => ?_) id⟩
    rw [same, mem_keys]
    exact Option.isSome_iff_exists.mp known
  · exact mem_keys_set dict key other value

theorem keys_set_of_mem (dict : Dict Key Value) {key : Key} (member : key ∈ dict.keys)
    (value : Value) : (dict.set key value).keys = dict.keys :=
  put_keys_of_mem key value dict.entries member

theorem update_cons (dict : Dict Key Value) (entry : Key × Value) (entries : List (Key × Value)) :
    dict.update (entry :: entries) = (dict.set entry.1 entry.2).update entries := rfl

theorem mem_keys_update (dict : Dict Key Value) (entries : List (Key × Value)) (key : Key) :
    key ∈ (dict.update entries).keys ↔ key ∈ dict.keys ∨ key ∈ entries.map Prod.fst := by
  induction entries generalizing dict with
  | nil => simp [update]
  | cons entry rest induction =>
      rw [update_cons, induction, mem_keys_set, List.map_cons, List.mem_cons]
      tauto

theorem get_update_absent (dict : Dict Key Value) {entries : List (Key × Value)} {key : Key}
    (absent : key ∉ entries.map Prod.fst) : (dict.update entries).get? key = dict.get? key := by
  induction entries generalizing dict with
  | nil => rfl
  | cons entry rest induction =>
      rw [List.map_cons, List.mem_cons, not_or] at absent
      rw [update_cons, induction _ absent.2, get_set_other _ absent.1]

theorem get_update_mem (dict : Dict Key Value) {entries : List (Key × Value)} {key : Key}
    {value : Value} (unique : (entries.map Prod.fst).Nodup) (member : (key, value) ∈ entries) :
    (dict.update entries).get? key = some value := by
  induction entries generalizing dict with
  | nil => exact absurd member List.not_mem_nil
  | cons entry rest induction =>
      rw [List.map_cons, List.nodup_cons] at unique
      rw [update_cons]
      rcases List.mem_cons.mp member with rfl | later
      · rw [get_update_absent _ unique.1, get_set_self]
      · exact induction _ unique.2 later

theorem entries_update_fresh (dict : Dict Key Value) {entries : List (Key × Value)}
    (unique : (entries.map Prod.fst).Nodup) (fresh : ∀ key ∈ entries.map Prod.fst, key ∉ dict.keys) :
    (dict.update entries).entries = dict.entries ++ entries := by
  induction entries generalizing dict with
  | nil => exact (List.append_nil _).symm
  | cons entry rest induction =>
      rw [List.map_cons, List.nodup_cons] at unique
      rw [List.map_cons, List.forall_mem_cons] at fresh
      have behind : (dict.set entry.1 entry.2).entries = dict.entries ++ [entry] :=
        put_keys_of_not_mem entry.1 entry.2 dict.entries fresh.1
      rw [update_cons, induction _ unique.2, behind, List.append_assoc, List.singleton_append]
      intro key member
      rw [mem_keys_set, not_or]
      exact ⟨fun same => unique.1 (same ▸ member), fresh.2 key member⟩

theorem update_empty (dict : Dict Key Value) : Dict.update ∅ dict.entries = dict :=
  ext (entries_update_fresh ∅ dict.unique fun _ _ => List.not_mem_nil)

private theorem put_same {key : Key} {value : Value} (entries : List (Key × Value))
    (found : find key entries = some value) : put key value entries = entries := by
  induction entries with
  | nil => simp [find] at found
  | cons entry rest induction =>
      by_cases same : entry.1 = key
      · simp only [find, if_pos same, Option.some.injEq] at found
        have equal : entry = (key, value) := Prod.ext same found
        simp [put, equal]
      · simp only [find, if_neg same] at found
        simp [put, same, induction found]

theorem set_same (dict : Dict Key Value) {key : Key} {value : Value}
    (found : dict.get? key = some value) : dict.set key value = dict :=
  ext (put_same dict.entries found)

private theorem put_perm (key : Key) (value : Value) (entries : List (Key × Value))
    (unique : (entries.map Prod.fst).Nodup) :
    (put key value entries).Perm ((key, value) :: entries.filter fun entry => entry.1 ≠ key) := by
  induction entries with
  | nil => exact List.Perm.refl _
  | cons entry rest induction =>
      rw [List.map_cons, List.nodup_cons] at unique
      by_cases same : entry.1 = key
      · have absent : ∀ other ∈ rest, decide (other.1 ≠ key) = true := by
          intro other member
          apply decide_eq_true
          intro again
          exact unique.1 (List.mem_map.mpr ⟨other, member, by rw [again, same]⟩)
        rw [put, if_pos same, List.filter_cons_of_neg (by simp [same]),
          List.filter_eq_self.mpr absent]
      · rw [put, if_neg same, List.filter_cons_of_pos (by simp [same])]
        exact ((induction unique.2).cons entry).trans (List.Perm.swap _ _ _)

theorem set_perm (dict : Dict Key Value) (key : Key) (value : Value) :
    (dict.set key value).entries.Perm ((key, value) :: (dict.erase key).entries) :=
  put_perm key value dict.entries dict.unique

theorem entries_perm {dict : Dict Key Value} {key : Key} {value : Value}
    (found : dict.get? key = some value) :
    dict.entries.Perm ((key, value) :: (dict.erase key).entries) := by
  have written := set_perm dict key value
  rw [set_same dict found] at written
  exact written

private theorem put_put (key : Key) (first second : Value) (entries : List (Key × Value)) :
    put key second (put key first entries) = put key second entries := by
  induction entries with
  | nil => simp [put]
  | cons entry rest induction =>
      by_cases same : entry.1 = key
      · simp [put, same]
      · simp [put, same, induction]

@[simp] theorem set_set (dict : Dict Key Value) (key : Key) (first second : Value) :
    (dict.set key first).set key second = dict.set key second :=
  ext (put_put key first second dict.entries)

private theorem filter_put (key : Key) (value : Value) (entries : List (Key × Value)) :
    (put key value entries).filter (fun entry => entry.1 ≠ key) =
      entries.filter fun entry => entry.1 ≠ key := by
  induction entries with
  | nil => simp [put]
  | cons entry rest induction =>
      by_cases same : entry.1 = key
      · simp [put, same]
      · simp only [put, if_neg same, List.filter_cons, induction]

@[simp] theorem erase_set (dict : Dict Key Value) (key : Key) (value : Value) :
    (dict.set key value).erase key = dict.erase key :=
  ext (filter_put key value dict.entries)

end Lookup

section Related

variable {Rel : Key → Value → Value → Prop} {left right : Dict Key Value}

def Matched (Rel : Key → Value → Value → Prop) (first second : Key × Value) : Prop :=
  first.1 = second.1 ∧ Rel first.1 first.2 second.2

/-- The same keys in the same order, with related values. -/
def Related (Rel : Key → Value → Value → Prop) (left right : Dict Key Value) : Prop :=
  List.Forall₂ (Matched Rel) left.entries right.entries

theorem Related.keys (related : Related Rel left right) : left.keys = right.keys := by
  have aligned : List.Forall₂ (· = ·) (left.entries.map Prod.fst) (right.entries.map Prod.fst) := by
    rw [List.forall₂_map_left_iff, List.forall₂_map_right_iff]
    exact related.imp fun _ _ => And.left
  exact List.forall₂_eq_eq_eq ▸ aligned

theorem Related.map_entries {Result : Type*} {change : Key → Value → Result}
    (related : Related Rel left right)
    (same : ∀ key first second, Rel key first second → change key first = change key second) :
    left.mapEntries change = right.mapEntries change := by
  apply ext
  have aligned : List.Forall₂ (· = ·) (left.mapEntries change).entries
      (right.mapEntries change).entries := by
    rw [mapEntries, mapEntries, List.forall₂_map_left_iff, List.forall₂_map_right_iff]
    exact related.imp fun first second matched =>
      Prod.ext matched.1 ((same _ _ _ matched.2).trans (by rw [matched.1]))
  exact List.forall₂_eq_eq_eq ▸ aligned

variable [DecidableEq Key]

theorem Related.set (related : Related Rel left right) {key : Key} {first second : Value}
    (held : Rel key first second) : Related Rel (left.set key first) (right.set key second) := by
  change List.Forall₂ (Matched Rel) (put key first left.entries) (put key second right.entries)
  unfold Related at related
  generalize left.entries = entries, right.entries = others at related ⊢
  induction related with
  | nil => exact .cons ⟨rfl, held⟩ .nil
  | cons matched rest induction =>
      rw [put, put, matched.1]
      split_ifs
      · exact .cons ⟨rfl, held⟩ rest
      · exact .cons matched induction

theorem Related.update {entries others : List (Key × Value)} (related : Related Rel left right)
    (matched : List.Forall₂ (Matched Rel) entries others) :
    Related Rel (left.update entries) (right.update others) := by
  unfold Dict.update
  induction matched generalizing left right with
  | nil => exact related
  | @cons entry other _ _ here _ induction =>
      apply induction
      dsimp only
      rw [← here.1]
      exact related.set here.2

end Related

end Dict

end XRootDClient.Lib
