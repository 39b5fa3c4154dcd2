import XRootDClient.Lib.BigEndian

/-!
Rounds undone: a state taken through a list of keys comes back when the keys are taken
from the last to the first, by a step that undoes each of them, whatever image of the
state it works on. Exclusive or of byte strings undoes itself.
-/

set_option autoImplicit false

namespace XRootDClient.Lib.Rounds

open BigEndian

variable {State Image Key : Type*}

theorem foldl_keeps {step : State → Key → State} {Holds : State → Prop} {keys : List Key}
    (keeps : ∀ state, ∀ key ∈ keys, Holds state → Holds (step state key)) {state : State}
    (holds : Holds state) : Holds (keys.foldl step state) := by
  induction keys generalizing state with
  | nil => exact holds
  | cons key rest induction =>
      rw [List.foldl_cons]
      exact induction (fun state key member => keeps state key (List.mem_cons_of_mem _ member))
        (keeps state key List.mem_cons_self holds)

theorem foldl_undone {step : State → Key → State} {back : Image → Key → Image}
    {image : State → Image} {Holds : State → Prop} {keys : List Key}
    (keeps : ∀ state, ∀ key ∈ keys, Holds state → Holds (step state key))
    (undoes : ∀ state, ∀ key ∈ keys, Holds state → back (image (step state key)) key = image state)
    {state : State} (holds : Holds state) :
    keys.reverse.foldl back (image (keys.foldl step state)) = image state := by
  induction keys generalizing state with
  | nil => rfl
  | cons key rest induction =>
      have later := induction
        (fun state key member => keeps state key (List.mem_cons_of_mem _ member))
        (fun state key member => undoes state key (List.mem_cons_of_mem _ member))
        (keeps state key List.mem_cons_self holds)
      rw [List.reverse_cons, List.foldl_append, List.foldl_cons (f := step), later, List.foldl_cons,
        List.foldl_nil]
      exact undoes state key List.mem_cons_self holds

/-- `bytes(a ^ b for a, b in zip(...))`. -/
def mask (left right : Bytes) : Bytes := List.zipWith (· ^^^ ·) left right

theorem mask_length {left right : Bytes} (same : left.length = right.length) :
    (mask left right).length = left.length := by
  rw [mask, List.length_zipWith, same, Nat.min_self]

theorem mask_mask {left right : Bytes} (same : left.length = right.length) :
    mask (mask left right) right = left := by
  induction left generalizing right with
  | nil => rfl
  | cons byte rest induction =>
      cases right with
      | nil => cases same
      | cons other others =>
          have inner : mask (mask rest others) others = rest := induction (Nat.succ.inj same)
          have head : byte ^^^ other ^^^ other = byte := by
            rw [UInt8.xor_assoc, UInt8.xor_self, UInt8.xor_zero]
          rw [mask, mask, List.zipWith_cons_cons, List.zipWith_cons_cons, head]
          exact congrArg _ inner

end XRootDClient.Lib.Rounds
