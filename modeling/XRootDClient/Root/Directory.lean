import Mathlib.Data.List.TakeWhile
import XRootDClient.Lib.Decimal
import XRootDClient.Lib.Dict

/-!
# Directories

A directory is a list of keys, which may hold several cycles of one name in any
order. Each view of it goes through the list in its own way: a name is looked up by
its highest cycle, its class is that of the key listed last, and every key of a tree
class is listed among the trees. What a key is read as, and what is found below it,
are parameters.
-/

set_option autoImplicit false

namespace XRootDClient.Root.Directory

open Lib

structure Key where
  name : Text
  cycle : Int
  classname : Text
  deriving DecidableEq

inductive Error
  | key
  | other
  deriving DecidableEq

def treeClasses : List Text := [str "TTree", str "TNtuple", str "TNtupleD"]

def Key.isTree (key : Key) : Bool := treeClasses.contains key.classname

/-- The key met, if there is none so far or it has a higher cycle. -/
def better (key : Key) : Option Key → Key
  | none => key
  | some best => if key.cycle > best.cycle then key else best

/-- The loop of `_key`: a cycle that was asked for is taken where it is met first, and
without one the highest so far. -/
def find (wanted cycle : Text) : List Key → Option Key → Option Key
  | [], found => found
  | key :: rest, found =>
      if key.name ≠ wanted then find wanted cycle rest found
      else if cycle ≠ [] then
        if Text.ofInt key.cycle = cycle then some key else find wanted cycle rest found
      else find wanted cycle rest (some (better key found))

/-- `Directory._key`. -/
def lookup (keys : List Key) (name : Text) : Option Key :=
  let (wanted, _, cycle) := name.partition ';'
  find wanted cycle keys none

/-- `Directory.keys`. -/
def names (keys : List Key) : List Text :=
  (Dict.update ∅ (keys.map fun key => (key.name, ()))).keys

def classnames (keys : List Key) : Dict Text Text :=
  Dict.update ∅ (keys.map fun key => (key.name, key.classname))

def trees (keys : List Key) : List Text := (keys.filter Key.isTree).map Key.name

section Reading

variable {Item : Type} (read : Key → Except Error Item) (below : Item → Text → Except Error Item)

/-- `Directory.__getitem__`: a name with a slash is looked up in what stands before it. -/
def getItem (keys : List Key) (name : Text) : Except Error Item :=
  let (head, slash, rest) := name.partition '/'
  let item :=
    match lookup keys head with
    | none => .error .key
    | some key => read key
  if slash then item.bind fun item => below item rest else item

def tree (keys : List Key) : Except Error Item :=
  match trees keys with
  | [name] => getItem read below keys name
  | _ => .error .key

end Reading

/-- The key a name stands for: the highest cycle of it. -/
structure Newest (keys : List Key) (name : Text) (key : Key) : Prop where
  listed : key ∈ keys
  named : key.name = name
  highest : ∀ other ∈ keys, other.name = name → other.cycle ≤ key.cycle

instance (keys : List Key) (name : Text) (key : Key) : Decidable (Newest keys name key) :=
  decidable_of_iff (key ∈ keys ∧ key.name = name ∧
      ∀ other ∈ keys, other.name = name → other.cycle ≤ key.cycle)
    ⟨fun ⟨listed, named, highest⟩ => ⟨listed, named, highest⟩,
      fun newest => ⟨newest.listed, newest.named, newest.highest⟩⟩

def TreeName (keys : List Key) (name : Text) : Prop :=
  ∃ key, Newest keys name key ∧ key.isTree = true

/-- A name stands for a key whatever is read and whatever is found below it. -/
def Selects (keys : List Key) (name : Text) (key : Key) : Prop :=
  ∀ (Item : Type) (read : Key → Except Error Item) (below : Item → Text → Except Error Item),
    getItem read below keys name = read key

structure Agree (keys : List Key) : Prop where
  once : (names keys).Nodup ∧ ∀ name, name ∈ names keys ↔ ∃ key ∈ keys, key.name = name
  classes : ∀ name ∈ names keys, ∃ key, Newest keys name key ∧ Selects keys name key ∧
    (classnames keys).get? name = some key.classname
  trees : (trees keys).Nodup ∧ ∀ name, name ∈ trees keys ↔ TreeName keys name
  tree : ∀ (Item : Type) (read : Key → Except Error Item)
    (below : Item → Text → Except Error Item),
    (∀ name, (∀ other, TreeName keys other ↔ other = name) →
      tree read below keys = getItem read below keys name) ∧
    ((¬∃ name, ∀ other, TreeName keys other ↔ other = name) →
      tree read below keys = .error .key)
  cycles : ∀ key ∈ keys, Selects keys (key.name ++ ';' :: Text.ofInt key.cycle) key

/-- No name can be taken for a path or for one with a cycle, the key listed last under a
name has the class of its highest cycle, and no tree is an older cycle of its name. -/
structure Tidy (keys : List Key) : Prop where
  plain : ∀ key ∈ keys, ';' ∉ key.name ∧ '/' ∉ key.name
  last : ∀ before key after, keys = before ++ key :: after →
    (∀ later ∈ after, later.name ≠ key.name) →
    ∀ newest, Newest keys key.name newest → key.classname = newest.classname
  current : ∀ key ∈ keys, key.isTree = true → Newest keys key.name key

variable {keys : List Key} {name : Text}

theorem better_highest (key : Key) (found : Option Key) :
    (better key found = key ∨ better key found ∈ found) ∧ key.cycle ≤ (better key found).cycle ∧
      ∀ held ∈ found, held.cycle ≤ (better key found).cycle := by
  cases found with
  | none => exact ⟨.inl rfl, Int.le_refl _, nofun⟩
  | some best =>
      rw [better]
      split_ifs with more
      · exact ⟨.inl rfl, Int.le_refl _, fun held same => by cases same; omega⟩
      · exact ⟨.inr rfl, by omega, fun held same => by cases same; omega⟩

/-- What the loop has found without a cycle: the highest of the keys of the name and of the
one it held before. -/
def Found (keys : List Key) (name : Text) (held : Option Key) : Option Key → Prop
  | none => held = none ∧ ∀ key ∈ keys, key.name ≠ name
  | some best => (best ∈ held ∨ best ∈ keys ∧ best.name = name) ∧
      (∀ before ∈ held, before.cycle ≤ best.cycle) ∧
      ∀ key ∈ keys, key.name = name → key.cycle ≤ best.cycle

theorem find_highest (held : Option Key) : Found keys name held (find name [] keys held) := by
  induction keys generalizing held with
  | nil =>
      rw [find]
      cases held with
      | none => exact ⟨rfl, nofun⟩
      | some best => exact ⟨.inl rfl, fun before same => by cases same; omega, nofun⟩
  | cons key rest induction =>
      rw [find]
      by_cases other : key.name ≠ name
      · rw [if_pos other]
        have later := induction held
        revert later
        cases find name [] rest held with
        | none =>
            rintro ⟨none, missing⟩
            exact ⟨none, List.forall_mem_cons.mpr ⟨other, missing⟩⟩
        | some best =>
            rintro ⟨place, before, highest⟩
            refine ⟨place.imp_right fun inside => ⟨List.mem_cons_of_mem _ inside.1, inside.2⟩,
              before, List.forall_mem_cons.mpr ⟨fun named => absurd named other, highest⟩⟩
      · rw [if_neg other, if_neg (by simp)]
        obtain ⟨place, here, before⟩ := better_highest key held
        have later := induction (some (better key held))
        revert later
        cases find name [] rest (some (better key held)) with
        | none => exact fun none => by cases none.1
        | some best =>
            rintro ⟨found, kept, highest⟩
            have most := kept _ rfl
            refine ⟨?_, fun one inside => Int.le_trans (before one inside) most,
              List.forall_mem_cons.mpr ⟨fun _ => Int.le_trans here most, highest⟩⟩
            rcases found with same | inside
            · cases same
              rcases place with same | inside
              · rw [same]
                exact .inr ⟨List.mem_cons_self, not_not.mp other⟩
              · exact .inl inside
            · exact .inr ⟨List.mem_cons_of_mem _ inside.1, inside.2⟩

theorem partition_bare {mark : Char} {text : Text} (bare : mark ∉ text) :
    text.partition mark = (text, false, []) := by
  have cut := Text.partition_append bare []
  rw [List.append_nil] at cut
  rw [cut]
  simp [Text.partition]

theorem lookup_newest (bare : ';' ∉ name) {key : Key} (listed : key ∈ keys)
    (named : key.name = name) : ∃ newest, lookup keys name = some newest ∧ Newest keys name newest := by
  have known := @find_highest keys name none
  rw [lookup, partition_bare bare]
  dsimp only
  revert known
  cases find name [] keys none with
  | none => exact fun missing => absurd named (missing.2 key listed)
  | some best =>
      rintro ⟨where_, -, highest⟩
      rcases where_ with held | inside
      · cases held
      · exact ⟨best, rfl, inside.1, inside.2, highest⟩

def Distinct (keys : List Key) : Prop := (keys.map fun key => (key.name, key.cycle)).Nodup

instance (keys : List Key) : Decidable (Distinct keys) :=
  inferInstanceAs (Decidable (List.Nodup _))

theorem same_key (distinct : Distinct keys) {one two : Key} (first : one ∈ keys)
    (second : two ∈ keys) (name : one.name = two.name) (cycle : one.cycle = two.cycle) :
    one = two :=
  List.inj_on_of_nodup_map distinct first second (Prod.ext name cycle)

theorem newest_unique (distinct : Distinct keys) {one two : Key} (first : Newest keys name one)
    (second : Newest keys name two) : one = two := by
  apply same_key distinct first.listed second.listed (first.named.trans second.named.symm)
  have less := second.highest one first.listed first.named
  have more := first.highest two second.listed second.named
  omega

theorem of_int_injective {one two : Int} (same : Text.ofInt one = Text.ofInt two) : one = two := by
  have read := congrArg Decimal.int same
  rw [Decimal.int_of_int, Decimal.int_of_int, Option.some.injEq] at read
  exact read

theorem find_cycle {key : Key} (listed : key ∈ keys) (distinct : Distinct keys)
    (held : Option Key) : find key.name (Text.ofInt key.cycle) keys held = some key := by
  induction keys with
  | nil => cases listed
  | cons first rest induction =>
      have later : Distinct rest := (List.nodup_cons.mp distinct).2
      rw [find, if_pos (Decimal.of_int_some _)]
      rcases List.mem_cons.mp listed with rfl | inside
      · rw [if_neg (not_not.mpr rfl), if_pos rfl]
      · split_ifs with other same
        · exact induction inside later
        · rw [Option.some.injEq]
          exact same_key distinct List.mem_cons_self listed (not_not.mp other)
            (of_int_injective same)
        · exact induction inside later

theorem lookup_cycle (distinct : Distinct keys) {key : Key} (listed : key ∈ keys)
    (bare : ';' ∉ key.name) :
    lookup keys (key.name ++ ';' :: Text.ofInt key.cycle) = some key := by
  rw [lookup, Text.partition_append bare, Text.partition_self, List.append_nil]
  exact find_cycle listed distinct none

theorem find_named {wanted cycle : Text} {held : Option Key} (named : ∀ key ∈ held, key.name = wanted)
    {key : Key} (found : find wanted cycle keys held = some key) : key.name = wanted := by
  induction keys generalizing held with
  | nil => exact named key found
  | cons first rest induction =>
      rw [find] at found
      split_ifs at found with other asked same
      · exact induction named found
      · cases found
        exact not_not.mp other
      · exact induction named found
      · refine induction ?_ found
        rintro kept ⟨⟩
        rcases (better_highest first held).1 with same | inside
        · rw [same]
          exact not_not.mp other
        · exact named _ inside

theorem mem_names : name ∈ names keys ↔ ∃ key ∈ keys, key.name = name := by
  rw [names, Dict.mem_keys_update, Dict.keys_empty, List.map_map]
  simp

theorem mem_trees : name ∈ trees keys ↔ ∃ key ∈ keys, key.isTree = true ∧ key.name = name := by
  simp [trees, and_assoc]

theorem classnames_last {before after : List Key} {key : Key}
    (last : ∀ later ∈ after, later.name ≠ key.name) :
    (classnames (before ++ key :: after)).get? key.name = some key.classname := by
  have apart : key.name ∉ (after.map fun key => (key.name, key.classname)).map Prod.fst := by
    rw [List.map_map, List.mem_map]
    rintro ⟨later, member, same⟩
    exact last later member same
  rw [classnames, List.map_append, List.map_cons, Dict.update, List.foldl_append, List.foldl_cons]
  exact (Dict.get_update_absent _ apart).trans (Dict.get_set_self _ _ _)

theorem last_listed {key : Key} (listed : key ∈ keys) :
    ∃ before last after, keys = before ++ last :: after ∧ last.name = key.name ∧
      ∀ later ∈ after, later.name ≠ last.name := by
  induction keys generalizing key with
  | nil => cases listed
  | cons first rest induction =>
      by_cases again : ∃ other ∈ rest, other.name = key.name
      · obtain ⟨other, member, named⟩ := again
        obtain ⟨before, last, after, split, same, none⟩ := induction member
        exact ⟨first :: before, last, after, by rw [split]; rfl, same.trans named, none⟩
      · have here : first = key := by
          rcases List.mem_cons.mp listed with same | inside
          · exact same.symm
          · exact absurd ⟨key, inside, rfl⟩ again
        refine ⟨[], first, rest, rfl, congrArg Key.name here, fun later member same => ?_⟩
        exact again ⟨later, member, same.trans (congrArg Key.name here)⟩

theorem selects_lookup {key : Key} (bare : '/' ∉ name) (found : lookup keys name = some key) :
    Selects keys name key := by
  intro Item read below
  rw [getItem, partition_bare bare]
  dsimp only
  rw [found]
  rfl

theorem partition_head (mark : Char) (text : Text) : mark ∉ (text.partition mark).1 := by
  have head : (text.partition mark).1 = text.takeWhile (· ≠ mark) := by
    unfold Text.partition
    cases text.dropWhile (· ≠ mark) <;> rfl
  rw [head]
  intro member
  have other := List.mem_takeWhile_imp member
  simp at other

theorem slash_of_int (value : Int) : '/' ∉ Text.ofInt value := by
  have figures : ∀ figure < 10, '/' ≠ Nat.digitChar figure := by decide
  intro member
  rcases Decimal.mem_of_int member with same | ⟨figure, bound, same⟩
  · exact absurd same (by decide)
  · exact figures figure bound same

theorem selects_plain {key : Key} (named : key.name = name) (selects : Selects keys name key) :
    ';' ∉ name ∧ '/' ∉ name := by
  have found := selects Key .ok fun _ _ => .error .other
  rw [getItem] at found
  have bare : '/' ∉ name := by
    intro marked
    have cut := Text.partition_found marked []
    rw [List.append_nil] at cut
    rw [cut] at found
    dsimp only at found
    cases known : lookup keys (name.partition '/').1 with
    | none =>
        rw [known] at found
        cases found
    | some other =>
        rw [known] at found
        cases found
  refine ⟨?_, bare⟩
  intro marked
  rw [partition_bare bare] at found
  dsimp only at found
  cases known : lookup keys name with
  | none =>
      rw [known] at found
      cases found
  | some other =>
      rw [known] at found
      cases found
      have cut : key.name = (name.partition ';').1 := find_named (fun _ none => by cases none) known
      rw [← named, cut] at marked
      exact partition_head ';' _ marked

theorem tidy_agree (distinct : Distinct keys) (tidy : Tidy keys) : Agree keys := by
  have selected : ∀ key ∈ keys, ∃ newest, Newest keys key.name newest ∧
      Selects keys key.name newest := by
    intro key listed
    obtain ⟨semicolon, slash⟩ := tidy.plain key listed
    obtain ⟨newest, found, top⟩ := lookup_newest semicolon listed rfl
    exact ⟨newest, top, selects_lookup slash found⟩
  have treeNames : ∀ name, name ∈ trees keys ↔ TreeName keys name := by
    intro name
    rw [mem_trees]
    constructor
    · rintro ⟨key, listed, isTree, rfl⟩
      exact ⟨key, tidy.current key listed isTree, isTree⟩
    · rintro ⟨key, newest, isTree⟩
      exact ⟨key, newest.listed, isTree, newest.named⟩
  have once : (trees keys).Nodup := by
    have all : (keys.filter Key.isTree).Nodup := (distinct.of_map _).filter _
    refine all.map_on ?_
    intro one first two second same
    rw [List.mem_filter] at first second
    have newest := tidy.current one first.1 first.2
    rw [same] at newest
    exact newest_unique distinct newest (tidy.current two second.1 second.2)
  constructor
  · exact ⟨Dict.keys_nodup _, fun name => mem_names⟩
  · intro name member
    obtain ⟨key, listed, rfl⟩ := mem_names.mp member
    obtain ⟨newest, top, selects⟩ := selected key listed
    refine ⟨newest, top, selects, ?_⟩
    obtain ⟨before, last, after, rfl, same, none⟩ := last_listed listed
    rw [← same, classnames_last none, tidy.last before last after rfl none newest (same ▸ top)]
  · exact ⟨once, treeNames⟩
  · intro Item read below
    refine ⟨fun name only => ?_, fun several => ?_⟩
    · have alone : trees keys = [name] := by
        have member : ∀ other, other ∈ trees keys ↔ other = name := fun other =>
          (treeNames other).trans (only other)
        apply List.perm_singleton.mp
        rw [List.perm_ext_iff_of_nodup once (List.nodup_singleton name)]
        exact fun other => (member other).trans List.mem_singleton.symm
      rw [tree, alone]
    · rw [tree]
      split
      · next name alone =>
          refine absurd ⟨name, fun other => ?_⟩ several
          rw [← treeNames, alone, List.mem_singleton]
      · rfl
  · intro key listed
    obtain ⟨semicolon, slash⟩ := tidy.plain key listed
    refine selects_lookup ?_ (lookup_cycle distinct listed semicolon)
    rw [List.mem_append, List.mem_cons]
    rintro (inside | same | inside)
    · exact slash inside
    · exact absurd same (by decide)
    · exact slash_of_int _ inside

theorem agree_tidy (distinct : Distinct keys) (agree : Agree keys) : Tidy keys := by
  constructor
  · intro key listed
    obtain ⟨newest, top, selects, -⟩ := agree.classes key.name (mem_names.mpr ⟨key, listed, rfl⟩)
    exact selects_plain top.named selects
  · intro before key after split none newest top
    have listed : key ∈ keys := by
      rw [split]
      exact List.mem_append_right _ List.mem_cons_self
    obtain ⟨other, highest, -, known⟩ := agree.classes key.name (mem_names.mpr ⟨key, listed, rfl⟩)
    have last := @classnames_last before after key none
    rw [← split, known, Option.some.injEq] at last
    rw [newest_unique distinct top highest, last]
  · intro key listed isTree
    obtain ⟨newest, top, tree⟩ := (agree.trees.2 key.name).mp (mem_trees.mpr ⟨key, listed, isTree, rfl⟩)
    have same : key = newest := by
      have inj := List.inj_on_of_nodup_map agree.trees.1
      exact inj (List.mem_filter.mpr ⟨listed, isTree⟩) (List.mem_filter.mpr ⟨top.listed, tree⟩)
        top.named.symm
    rw [← same] at top
    exact top

/-- The views of a directory agree exactly when it is tidy. -/
theorem views_agree_iff (keys : List Key) (distinct : Distinct keys) : Agree keys ↔ Tidy keys :=
  ⟨agree_tidy distinct, tidy_agree distinct⟩

def plainKeys : List Key :=
  [⟨str "events", 1, str "TTree"⟩, ⟨str "h", 2, str "TH1D"⟩, ⟨str "h", 1, str "TH1D"⟩]

theorem plain_keys_agree : Distinct plainKeys ∧ Agree plainKeys := by
  have distinct : Distinct plainKeys := by decide
  refine ⟨distinct, (views_agree_iff plainKeys distinct).mpr ⟨by decide, ?_, by decide⟩⟩
  intro before key after split _ newest top
  have one : ∀ one ∈ plainKeys, ∀ two ∈ plainKeys, one.name = two.name →
      one.classname = two.classname := by decide
  refine one key ?_ newest top.listed top.named.symm
  rw [split]
  exact List.mem_append_right _ List.mem_cons_self

/-- A tree that was written twice is listed twice, and is not the only one. -/
def writtenTwice : List Key :=
  [⟨str "events", 2, str "TTree"⟩, ⟨str "events", 1, str "TTree"⟩]

theorem written_twice_listed_twice :
    trees writtenTwice = [str "events", str "events"] ∧ ¬Agree writtenTwice := by
  refine ⟨by decide, fun agree => ?_⟩
  exact absurd agree.trees.1 (by decide)

end XRootDClient.Root.Directory
