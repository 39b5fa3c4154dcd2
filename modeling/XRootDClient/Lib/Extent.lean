import Mathlib.Data.List.Basic

/-!
Contents addressed by offset: reading a range, cutting or filling up to a size,
and storing a piece at an offset. A piece stored past the end leaves a hole, and
storing nothing changes nothing. Two pieces stored back to back are one piece, and
what is stored at an index is told by the last piece that covers it.
-/

set_option autoImplicit false

namespace XRootDClient.Lib.Extent

variable {Item : Type*} (hole : Item) (content : List Item)

def fetch (offset length : Nat) : List Item := (content.drop offset).take length

def resize (size : Nat) : List Item :=
  content.take size ++ List.replicate (size - content.length) hole

def patch (offset : Nat) (data : List Item) : List Item :=
  if data.isEmpty then content
  else resize hole content offset ++ data ++ content.drop (offset + data.length)

@[simp] theorem length_fetch (offset length : Nat) :
    (fetch content offset length).length = min length (content.length - offset) := by
  rw [fetch, List.length_take, List.length_drop]

@[simp] theorem length_resize (size : Nat) : (resize hole content size).length = size := by
  rw [resize, List.length_append, List.length_take, List.length_replicate]
  omega

@[simp] theorem patch_nil (offset : Nat) : patch hole content offset [] = content := rfl

theorem patch_some (offset : Nat) {data : List Item} (some : data ≠ []) :
    patch hole content offset data =
      resize hole content offset ++ data ++ content.drop (offset + data.length) := by
  rw [patch, if_neg (by simpa using some)]

theorem length_patch (offset : Nat) {data : List Item} (some : data ≠ []) :
    (patch hole content offset data).length = max content.length (offset + data.length) := by
  rw [patch_some hole content offset some, List.length_append, List.length_append, length_resize,
    List.length_drop]
  omega

theorem resize_self : resize hole content content.length = content := by
  rw [resize, List.take_length, Nat.sub_self, List.replicate_zero, List.append_nil]

theorem patch_end (data : List Item) :
    patch hole content content.length data = content ++ data := by
  by_cases none : data = []
  · rw [none, patch_nil, List.append_nil]
  · rw [patch_some hole content _ none, resize_self, List.drop_eq_nil_of_le (by omega),
      List.append_nil]

theorem fetch_append (offset first second : Nat) :
    fetch content offset first ++ fetch content (offset + first) second =
      fetch content offset (first + second) := by
  rw [fetch, fetch, fetch, List.take_add, List.drop_drop]

theorem fetch_all {offset length : Nat} (far : content.length - offset ≤ length) :
    fetch content offset length = content.drop offset :=
  List.take_of_length_le (by rw [List.length_drop]; exact far)

theorem fetch_short {offset first second : Nat}
    (short : (fetch content offset first).length < first) :
    fetch content offset (first + second) = fetch content offset first := by
  rw [length_fetch] at short
  rw [fetch_all content (by omega), fetch_all content (by omega)]

theorem fetch_front (offset length : Nat) :
    content.drop offset = fetch content offset length ++
      content.drop (offset + (fetch content offset length).length) := by
  have behind : (content.drop offset).drop length =
      content.drop (offset + (fetch content offset length).length) := by
    rw [List.drop_drop, length_fetch]
    by_cases inside : length ≤ content.length - offset
    · rw [Nat.min_eq_left inside]
    · rw [List.drop_eq_nil_of_le (by omega), List.drop_eq_nil_of_le (by omega)]
  rw [← behind]
  exact (List.take_append_drop length _).symm

theorem getElem?_patch (offset : Nat) {data : List Item} (some : data ≠ []) (index : Nat) :
    (patch hole content offset data)[index]? =
      if index < offset then
        if index < content.length then content[index]? else .some hole
      else if index < offset + data.length then data[index - offset]?
      else content[index]? := by
  rw [patch_some hole content offset some, List.append_assoc]
  split_ifs with before inside within
  · rw [List.getElem?_append_left (by rw [length_resize]; exact before), resize,
      List.getElem?_append_left (by rw [List.length_take]; omega), List.getElem?_take_of_lt before]
  · rw [List.getElem?_append_left (by rw [length_resize]; exact before), resize,
      List.getElem?_append_right (by rw [List.length_take]; omega), List.getElem?_replicate,
      if_pos (by rw [List.length_take]; omega)]
  · rw [List.getElem?_append_right (by rw [length_resize]; omega), length_resize,
      List.getElem?_append_left (by omega)]
  · rw [List.getElem?_append_right (by rw [length_resize]; omega), length_resize,
      List.getElem?_append_right (by omega), List.getElem?_drop]
    congr 1
    omega

theorem resize_patch (offset : Nat) {data : List Item} (some : data ≠ []) :
    resize hole (patch hole content offset data) (offset + data.length) =
      resize hole content offset ++ data := by
  have length := length_patch hole content offset some
  rw [resize, length, Nat.sub_eq_zero_of_le (Nat.le_max_right _ _), List.replicate_zero,
    List.append_nil, patch_some hole content offset some]
  exact List.take_left' (by rw [List.length_append, length_resize])

theorem patch_append (offset : Nat) (first second : List Item) :
    patch hole (patch hole content offset first) (offset + first.length) second =
      patch hole content offset (first ++ second) := by
  by_cases none : first = []
  · subst none
    rfl
  by_cases done : second = []
  · rw [done, patch_nil, List.append_nil]
  have both : first ++ second ≠ [] := fun empty => none (List.append_eq_nil_iff.mp empty).1
  have behind : (patch hole content offset first).drop (offset + first.length + second.length) =
      content.drop (offset + (first ++ second).length) := by
    rw [patch_some hole content offset none, List.drop_append, List.drop_eq_nil_of_le,
      List.nil_append, List.drop_drop, List.length_append, List.length_append, length_resize]
    · congr 1
      omega
    · rw [List.length_append, length_resize]
      omega
  rw [patch_some hole _ _ done, resize_patch hole content offset none, behind,
    patch_some hole content offset both, List.append_assoc (resize hole content offset)]

theorem patch_patch (offset : Nat) (data : List Item) :
    patch hole (patch hole content offset data) offset data = patch hole content offset data := by
  by_cases none : data = []
  · rw [none, patch_nil, patch_nil]
  apply List.ext_getElem?
  intro index
  have length := length_patch hole content offset none
  rw [getElem?_patch hole _ offset none, length]
  by_cases before : index < offset
  · rw [if_pos before, if_pos (by omega)]
  · rw [if_neg before, getElem?_patch hole content offset none, if_neg before]
    split_ifs
    · rfl
    · rfl

end XRootDClient.Lib.Extent
