import Mathlib.Algebra.Order.BigOperators.Group.List
import Mathlib.Algebra.Order.Ring.Int

/-!
A list cut into batches under two ceilings, on the number of items and on their total
weight. A batch is closed when the next item would take it past one of them; a batch
with nothing in it is never closed, so that an item over the second ceiling gets a
batch of its own.
-/

set_option autoImplicit false

namespace XRootDClient.Lib.Batching

variable {Item : Type*} (count : Nat) (limit : Int) (weight : Item → Int)

def full (batch : List Item) (total : Int) (item : Item) : Bool :=
  !batch.isEmpty && (batch.length ≥ count || total + weight item > limit)

def greedyFrom (batch : List Item) (total : Int) : List Item → List (List Item)
  | [] => if batch.isEmpty then [] else [batch]
  | item :: rest =>
      if full count limit weight batch total item then
        batch :: greedyFrom [item] (weight item) rest
      else greedyFrom (batch ++ [item]) (total + weight item) rest

def greedy (items : List Item) : List (List Item) := greedyFrom count limit weight [] 0 items

/-- The batches hold the items in their order, none of them empty or past a ceiling. -/
structure Respects (items : List Item) (batches : List (List Item)) : Prop where
  flat : batches.flatten = items
  filled : ∀ batch ∈ batches, batch ≠ []
  short : ∀ batch ∈ batches, batch.length ≤ count
  light : ∀ batch ∈ batches, (batch.map weight).sum ≤ limit

/-- The running total is the batch's own, and neither ceiling is passed. -/
structure Running (batch : List Item) (total : Int) : Prop where
  total : total = (batch.map weight).sum
  short : batch.length ≤ count
  light : batch ≠ [] → (batch.map weight).sum ≤ limit

variable {count limit weight} {items batch : List Item} {total : Int}

theorem Running.start : Running count limit weight [] 0 where
  total := rfl
  short := Nat.zero_le count
  light := fun filled => absurd rfl filled

theorem Running.alone {item : Item} (positive : 0 < count) (fits : weight item ≤ limit) :
    Running count limit weight [item] (weight item) where
  total := (List.sum_singleton).symm
  short := positive
  light := by
    intro _
    rw [List.map_singleton, List.sum_singleton]
    exact fits

theorem Running.more (running : Running count limit weight batch total) {item : Item}
    (positive : 0 < count) (fits : weight item ≤ limit)
    (room : full count limit weight batch total item = false) :
    Running count limit weight (batch ++ [item]) (total + weight item) := by
  have sum : ((batch ++ [item]).map weight).sum = total + weight item := by
    rw [List.map_append, List.sum_append, running.total, List.map_singleton, List.sum_singleton]
  by_cases none : batch = []
  · have zero : total = 0 := by
      rw [running.total, none]
      rfl
    rw [none, List.nil_append, zero, zero_add]
    exact Running.alone positive fits
  · simp only [full, List.isEmpty_eq_false_iff.mpr none, Bool.not_false, Bool.true_and,
      Bool.or_eq_false_iff, decide_eq_false_iff_not, not_le, gt_iff_lt, not_lt] at room
    constructor
    · exact sum.symm
    · rw [List.length_append, List.length_singleton]
      exact room.1
    · intro _
      rw [sum]
      exact room.2

theorem greedy_from_respects (positive : 0 < count) (fits : ∀ item ∈ items, weight item ≤ limit)
    (running : Running count limit weight batch total) :
    Respects count limit weight (batch ++ items)
      (greedyFrom count limit weight batch total items) := by
  induction items generalizing batch total with
  | nil =>
      rw [greedyFrom, List.append_nil]
      by_cases none : batch = []
      · rw [none]
        constructor <;> simp
      · rw [if_neg (by simpa using none)]
        constructor
        · simp
        · simpa using none
        · simpa using running.short
        · simpa using running.light none
  | cons item rest induction =>
      have first := fits item List.mem_cons_self
      have others : ∀ other ∈ rest, weight other ≤ limit := fun other member =>
        fits other (List.mem_cons_of_mem item member)
      rw [greedyFrom]
      split
      · next closed =>
          have later := induction others (Running.alone positive first)
          have filled : batch ≠ [] := by
            intro none
            simp [full, none] at closed
          constructor
          · rw [List.flatten_cons, later.flat]
            rfl
          · exact List.forall_mem_cons.mpr ⟨filled, later.filled⟩
          · exact List.forall_mem_cons.mpr ⟨running.short, later.short⟩
          · exact List.forall_mem_cons.mpr ⟨running.light filled, later.light⟩
      · next room =>
          have later := induction others (running.more positive first (by simpa using room))
          rwa [List.append_assoc, List.singleton_append] at later

theorem greedy_respects (positive : 0 < count) (fits : ∀ item ∈ items, weight item ≤ limit) :
    Respects count limit weight items (greedy count limit weight items) :=
  greedy_from_respects positive fits Running.start

theorem Respects.fits {batches : List (List Item)} (weighs : ∀ item, 0 ≤ weight item)
    (respects : Respects count limit weight items batches) :
    ∀ item ∈ items, weight item ≤ limit := by
  intro item member
  rw [← respects.flat] at member
  obtain ⟨batch, listed, inside⟩ := List.mem_flatten.mp member
  have bound : weight item ≤ (batch.map weight).sum := by
    apply List.single_le_sum
    · intro value taken
      obtain ⟨other, _, rfl⟩ := List.mem_map.mp taken
      exact weighs other
    · exact List.mem_map_of_mem inside
  exact bound.trans (respects.light batch listed)

end XRootDClient.Lib.Batching
