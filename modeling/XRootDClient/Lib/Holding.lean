import Mathlib.Data.List.Nodup
import Mathlib.Data.List.Perm.Basic

/-!
# One holder for everything

Holders that may each refer to an item, as its owner or as a borrower, and a store of
items that are nobody's. A store is kept well when no item is in it twice, nothing in it
is referred to, and no other item has two owners. The rules say what taking an item out,
putting one in, letting go and handing on do to that.
-/

set_option autoImplicit false

namespace XRootDClient.Lib.Holding

structure Hold (Item : Type*) where
  item : Option Item
  owns : Bool

variable {Item : Type*} {holds : List (Hold Item)} {idle other : List Item} {item : Item}
  {index : Nat}

def Refers (holds : List (Hold Item)) (item : Item) : Prop :=
  ∃ hold ∈ holds, hold.item = some item

structure Single (holds : List (Hold Item)) (idle : List Item) : Prop where
  once : idle.Nodup
  unheld : ∀ item ∈ idle, ¬Refers holds item
  sole : ∀ item ∉ idle, ∀ first second : Nat, holds[first]? = some ⟨some item, true⟩ →
    holds[second]? = some ⟨some item, true⟩ → first = second

theorem single_nil : Single ([] : List (Hold Item)) [] where
  once := List.nodup_nil
  unheld := fun _ member => by cases member
  sole := fun _ _ _ _ found => by cases found

theorem refers_of_get {hold : Hold Item} (found : holds[index]? = some hold)
    (same : hold.item = some item) : Refers holds item :=
  ⟨hold, List.mem_of_getElem? found, same⟩

theorem Single.owner (single : Single holds idle) {first second : Nat}
    (here : holds[first]? = some ⟨some item, true⟩)
    (there : holds[second]? = some ⟨some item, true⟩) : first = second := by
  apply single.sole item _ first second here there
  intro member
  exact single.unheld item member (refers_of_get here rfl)

theorem Single.fewer {fewer : List (Hold Item)} (single : Single holds idle)
    (refers : ∀ item, Refers fewer item → Refers holds item)
    (owns : ∀ (index : Nat) item, fewer[index]? = some ⟨some item, true⟩ →
      holds[index]? = some ⟨some item, true⟩) : Single fewer idle where
  once := single.once
  unheld := fun item member refer => single.unheld item member (refers item refer)
  sole := fun item _ first second here there =>
    single.owner (owns first item here) (owns second item there)

theorem Single.perm (single : Single holds idle) (same : idle.Perm other) : Single holds other where
  once := same.nodup_iff.mp single.once
  unheld := fun item member => single.unheld item (same.mem_iff.mpr member)
  sole := fun _ _ _ _ here there => single.owner here there

theorem Single.shrink (single : Single holds (other ++ idle)) : Single holds idle where
  once := (List.nodup_append.mp single.once).2.1
  unheld := fun item member => single.unheld item (List.mem_append_right _ member)
  sole := fun _ _ _ _ here there => single.owner here there

/-- A store takes in an item that is not in it and that nobody refers to, and no other. -/
theorem single_cons : Single holds (item :: idle) ↔
    Single holds idle ∧ item ∉ idle ∧ ¬Refers holds item := by
  constructor
  · intro single
    exact ⟨@Single.shrink Item holds idle [item] single, (List.nodup_cons.mp single.once).1,
      single.unheld item List.mem_cons_self⟩
  · rintro ⟨single, absent, free⟩
    constructor
    · exact List.nodup_cons.mpr ⟨absent, single.once⟩
    · intro other member
      rcases List.mem_cons.mp member with rfl | member
      · exact free
      · exact single.unheld other member
    · exact fun _ _ _ _ here there => single.owner here there

theorem get_set {hold new : Hold Item} {place : Nat}
    (found : (holds.set index new)[place]? = some hold) :
    place = index ∧ hold = new ∨ place ≠ index ∧ holds[place]? = some hold := by
  by_cases same : place = index
  · rw [same, List.getElem?_set_self'] at found
    cases before : holds[index]? with
    | none => simp [before] at found
    | some old => exact Or.inl ⟨same, by simpa [before] using found.symm⟩
  · rw [List.getElem?_set_ne (fun equal => same equal.symm)] at found
    exact Or.inr ⟨same, found⟩

theorem refers_set {new : Hold Item} (refers : Refers (holds.set index new) item) :
    new.item = some item ∨ ∃ place hold, place ≠ index ∧ holds[place]? = some hold ∧
      hold.item = some item := by
  obtain ⟨hold, member, same⟩ := refers
  obtain ⟨place, found⟩ := List.getElem?_of_mem member
  rcases get_set found with ⟨-, rfl⟩ | ⟨other, found⟩
  · exact Or.inl same
  · exact Or.inr ⟨place, hold, other, found, same⟩

theorem Single.put {old new : Hold Item} (single : Single holds idle)
    (found : holds[index]? = some old)
    (less : new.item = none ∨ new.item = old.item ∧ (new.owns = true → old.owns = true)) :
    Single (holds.set index new) idle := by
  apply single.fewer
  · intro item refers
    rcases refers_set refers with same | ⟨place, hold, -, there, same⟩
    · rcases less with none | ⟨kept, -⟩
      · rw [none] at same
        cases same
      · exact refers_of_get found (kept ▸ same)
    · exact refers_of_get there same
  · intro place item owner
    rcases get_set owner with ⟨rfl, rfl⟩ | ⟨-, there⟩
    · rcases less with none | ⟨kept, owned⟩
      · cases none
      · obtain ⟨oldItem, oldOwns⟩ := old
        have same : some item = oldItem := kept
        have owned : oldOwns = true := owned rfl
        rw [found, ← same, owned]
    · exact there

theorem Single.gain (single : Single holds idle) (absent : item ∉ idle)
    (free : ¬Refers holds item) : Single (holds.set index ⟨some item, true⟩) idle := by
  constructor
  · exact single.once
  · intro other member refers
    rcases refers_set refers with same | ⟨place, hold, -, there, same⟩
    · cases same
      exact absent member
    · exact single.unheld other member (refers_of_get there same)
  · intro other _ first second here there
    rcases get_set here with ⟨rfl, same⟩ | ⟨-, early⟩
    · cases same
      rcases get_set there with ⟨rfl, -⟩ | ⟨-, late⟩
      · rfl
      · exact absurd (refers_of_get late rfl) free
    · rcases get_set there with ⟨rfl, same⟩ | ⟨-, late⟩
      · cases same
        exact absurd (refers_of_get early rfl) free
      · exact single.owner early late

theorem get_append {hold new : Hold Item} {place : Nat}
    (found : (holds ++ [new])[place]? = some hold) :
    holds[place]? = some hold ∨ place = holds.length ∧ hold = new := by
  rw [List.getElem?_append] at found
  split_ifs at found with bound
  · exact Or.inl found
  · obtain ⟨inside, same⟩ := List.getElem?_eq_some_iff.mp found
    rw [List.length_singleton, Nat.lt_one_iff, Nat.sub_eq_zero_iff_le] at inside
    apply Or.inr
    constructor
    · exact Nat.le_antisymm inside (Nat.not_lt.mp bound)
    · rw [← same, List.getElem_singleton]

theorem refers_append {new : Hold Item} :
    Refers (holds ++ [new]) item ↔ Refers holds item ∨ new.item = some item := by
  simp [Refers, or_and_right, exists_or]

theorem Single.append {new : Hold Item} (single : Single holds idle)
    (less : new.item = none ∨
      new.owns = false ∧ ∀ item, new.item = some item → Refers holds item) :
    Single (holds ++ [new]) idle := by
  apply single.fewer
  · intro item refers
    rcases refers_append.mp refers with before | same
    · exact before
    · rcases less with none | ⟨-, borrowed⟩
      · rw [none] at same
        cases same
      · exact borrowed item same
  · intro place item owner
    rcases get_append owner with before | ⟨-, rfl⟩
    · exact before
    · rcases less with none | ⟨borrower, -⟩
      · cases none
      · cases borrower

/-- A holder hands its item on to a new owner: this is well exactly when nobody else
owns it. -/
theorem single_handed (single : Single holds idle) {owns : Bool}
    (found : holds[index]? = some ⟨some item, owns⟩) :
    Single (holds.set index ⟨none, owns⟩ ++ [⟨some item, true⟩]) idle ↔
      ∀ place, holds[place]? = some ⟨some item, true⟩ → place = index := by
  have bound : index < holds.length := (List.getElem?_eq_some_iff.mp found).1
  have left : Single (holds.set index ⟨none, owns⟩) idle := single.put found (Or.inl rfl)
  constructor
  · intro handed place owner
    by_contra other
    have kept : (holds.set index ⟨none, owns⟩ ++ [⟨some item, true⟩])[place]? =
        some ⟨some item, true⟩ := by
      rw [List.getElem?_append_left, List.getElem?_set_ne (fun same => other same.symm), owner]
      rw [List.length_set]
      exact (List.getElem?_eq_some_iff.mp owner).1
    have new : (holds.set index ⟨none, owns⟩ ++ [⟨some item, true⟩])[holds.length]? =
        some ⟨some item, true⟩ := by
      rw [List.getElem?_append_right (Nat.le_of_eq List.length_set), List.length_set, Nat.sub_self]
      rfl
    have same := handed.owner kept new
    have inside := (List.getElem?_eq_some_iff.mp owner).1
    omega
  · intro alone
    have absent : item ∉ idle := fun member =>
      single.unheld item member (refers_of_get found rfl)
    constructor
    · exact single.once
    · intro other member refers
      rcases refers_append.mp refers with before | same
      · exact left.unheld other member before
      · cases same
        exact absent member
    · intro other _ first second here there
      -- an owner among the old holders owned the item before, and is not the one that let go
      have before : ∀ place : Nat, ¬(holds.set index ⟨none, owns⟩)[place]? =
          some ⟨some item, true⟩ := by
        intro place owner
        rcases get_set owner with ⟨-, none⟩ | ⟨other, there⟩
        · cases none
        · exact other (alone place there)
      rcases get_append here with here | ⟨rfl, same⟩
      · rcases get_append there with there | ⟨rfl, same⟩
        · exact left.owner here there
        · cases same
          exact absurd here (before _)
      · cases same
        rcases get_append there with there | ⟨rfl, -⟩
        · exact absurd there (before _)
        · rfl

end XRootDClient.Lib.Holding
