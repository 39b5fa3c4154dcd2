import Mathlib.Data.List.Nodup

/-!
Finite trees of named entries, as a directory holds them: a forest is a listing in its
order, with what stands below each directory of it. A member is reached by one route
only where no listing gives a name twice.
-/

set_option autoImplicit false

namespace XRootDClient.Lib

inductive Forest (Name : Type) where
  | nil
  | file (name : Name) (rest : Forest Name)
  | dir (name : Name) (below rest : Forest Name)
  deriving DecidableEq

namespace Forest

variable {Name : Type}

def listing : Forest Name → List (Name × Bool)
  | nil => []
  | file name rest => (name, false) :: rest.listing
  | dir name _ rest => (name, true) :: rest.listing

def names (forest : Forest Name) : List Name := forest.listing.map Prod.fst

def files : Forest Name → List Name
  | nil => []
  | file name rest => name :: rest.files
  | dir _ _ rest => rest.files

def dirs : Forest Name → List (Name × Forest Name)
  | nil => []
  | file _ rest => rest.dirs
  | dir name below rest => (name, below) :: rest.dirs

def members : Forest Name → List (List Name × Bool)
  | nil => []
  | file name rest => ([name], false) :: rest.members
  | dir name below rest =>
      ([name], true) :: below.members.map (fun member => (name :: member.1, member.2)) ++
        rest.members

def height : Forest Name → Nat
  | nil => 0
  | file _ rest => rest.height
  | dir _ below rest => max (below.height + 1) rest.height

def All (Holds : Name → Prop) : Forest Name → Prop
  | nil => True
  | file name rest => Holds name ∧ rest.All Holds
  | dir name below rest => Holds name ∧ below.All Holds ∧ rest.All Holds

def decideAll (Holds : Name → Prop) [DecidablePred Holds] :
    (forest : Forest Name) → Decidable (forest.All Holds)
  | nil => instDecidableTrue
  | file _ rest => @instDecidableAnd _ _ _ (decideAll Holds rest)
  | dir _ below rest =>
      @instDecidableAnd _ _ _ (@instDecidableAnd _ _ (decideAll Holds below) (decideAll Holds rest))

instance (Holds : Name → Prop) [DecidablePred Holds] : DecidablePred (All Holds) := decideAll Holds

def Distinct : Forest Name → Prop
  | nil => True
  | file name rest => name ∉ rest.names ∧ rest.Distinct
  | dir name below rest => name ∉ rest.names ∧ below.Distinct ∧ rest.Distinct

def decideDistinct [DecidableEq Name] : (forest : Forest Name) → Decidable forest.Distinct
  | nil => instDecidableTrue
  | file _ rest => @instDecidableAnd _ _ _ (decideDistinct rest)
  | dir _ below rest =>
      @instDecidableAnd _ _ _ (@instDecidableAnd _ _ (decideDistinct below) (decideDistinct rest))

instance [DecidableEq Name] : DecidablePred (@Distinct Name) := decideDistinct

section Listings

variable {forest below : Forest Name} {name : Name}

theorem mem_listing_file : (name, false) ∈ forest.listing ↔ name ∈ forest.files := by
  induction forest with
  | nil => simp [listing, files]
  | file first rest induction => simp [listing, files, induction]
  | dir first below rest _ induction => simp [listing, files, induction]

theorem mem_listing_dir : (name, true) ∈ forest.listing ↔ name ∈ forest.dirs.map Prod.fst := by
  induction forest with
  | nil => simp [listing, dirs]
  | file first rest induction => simp only [listing, dirs, List.mem_cons, induction]; simp
  | dir first below rest _ induction =>
      simp only [listing, dirs, List.mem_cons, List.map_cons, induction]
      simp

theorem mem_names : name ∈ forest.names ↔ name ∈ forest.files ∨ name ∈ forest.dirs.map Prod.fst := by
  rw [← mem_listing_file, ← mem_listing_dir, names, List.mem_map]
  constructor
  · rintro ⟨⟨_, kind⟩, member, rfl⟩
    cases kind with
    | false => exact .inl member
    | true => exact .inr member
  · rintro (member | member)
    · exact ⟨_, member, rfl⟩
    · exact ⟨_, member, rfl⟩

theorem listing_files : (forest.listing.filter fun entry => !entry.2).map Prod.fst = forest.files := by
  induction forest with
  | nil => rfl
  | file first rest induction => simpa [listing, files] using induction
  | dir first below rest _ induction => simpa [listing, files] using induction

theorem listing_dirs :
    (forest.listing.filter fun entry => entry.2).map Prod.fst = forest.dirs.map Prod.fst := by
  induction forest with
  | nil => rfl
  | file first rest induction => simpa [listing, dirs] using induction
  | dir first below rest _ induction => simpa [listing, dirs] using induction

theorem names_nodup (distinct : forest.Distinct) : forest.names.Nodup := by
  induction forest with
  | nil => exact List.nodup_nil
  | file first rest induction => exact List.nodup_cons.mpr ⟨distinct.1, induction distinct.2⟩
  | dir first below rest _ induction =>
      exact List.nodup_cons.mpr ⟨distinct.1, induction distinct.2.2⟩

theorem files_nodup (distinct : forest.Distinct) : forest.files.Nodup := by
  rw [← listing_files]
  exact (names_nodup distinct).sublist (List.filter_sublist.map _)

theorem dirs_nodup (distinct : forest.Distinct) : (forest.dirs.map Prod.fst).Nodup := by
  rw [← listing_dirs]
  exact (names_nodup distinct).sublist (List.filter_sublist.map _)

theorem file_not_dir (distinct : forest.Distinct) (listed : name ∈ forest.files) :
    name ∉ forest.dirs.map Prod.fst := by
  induction forest with
  | nil => cases listed
  | file first rest induction =>
      rcases List.mem_cons.mp listed with rfl | later
      · exact fun member => distinct.1 (mem_names.mpr (.inr member))
      · exact induction distinct.2 later
  | dir first below rest _ induction =>
      intro member
      rcases List.mem_cons.mp member with rfl | later
      · exact distinct.1 (mem_names.mpr (.inl listed))
      · exact induction distinct.2.2 listed later

theorem dir_distinct (distinct : forest.Distinct) (member : (name, below) ∈ forest.dirs) :
    below.Distinct := by
  induction forest with
  | nil => cases member
  | file first rest induction => exact induction distinct.2 member
  | dir first inner rest _ induction =>
      rcases List.mem_cons.mp member with same | later
      · cases same
        exact distinct.2.1
      · exact induction distinct.2.2 later

theorem dir_height (member : (name, below) ∈ forest.dirs) : below.height < forest.height := by
  induction forest with
  | nil => cases member
  | file first rest induction => exact induction member
  | dir first inner rest _ induction =>
      rw [height]
      rcases List.mem_cons.mp member with same | later
      · cases same
        omega
      · have deeper := induction later
        omega

theorem dir_all {Holds : Name → Prop} (all : forest.All Holds)
    (member : (name, below) ∈ forest.dirs) : Holds name ∧ below.All Holds := by
  induction forest with
  | nil => cases member
  | file first rest induction => exact induction all.2 member
  | dir first inner rest _ induction =>
      rcases List.mem_cons.mp member with same | later
      · cases same
        exact ⟨all.1, all.2.1⟩
      · exact induction all.2.2 later

theorem names_all {Holds : Name → Prop} (all : forest.All Holds) : ∀ name ∈ forest.names, Holds name := by
  induction forest with
  | nil => exact fun name member => absurd member List.not_mem_nil
  | file first rest induction =>
      intro name member
      rcases List.mem_cons.mp member with rfl | later
      · exact all.1
      · exact induction all.2 name later
  | dir first inner rest _ induction =>
      intro name member
      rcases List.mem_cons.mp member with rfl | later
      · exact all.1
      · exact induction all.2.2 name later

theorem all_and {First Second Third : Name → Prop} (one : forest.All First) (two : forest.All Second)
    (both : ∀ name, First name → Second name → Third name) : forest.All Third := by
  induction forest with
  | nil => trivial
  | file first rest induction => exact ⟨both first one.1 two.1, induction one.2 two.2⟩
  | dir first below rest inner induction =>
      exact ⟨both first one.1 two.1, inner one.2.1 two.2.1, induction one.2.2 two.2.2⟩

end Listings

section Routes

variable [DecidableEq Name]

def find (forest : Forest Name) : List Name → Option (Forest Name)
  | [] => some forest
  | name :: route =>
      (forest.dirs.find? fun entry => entry.1 = name).bind fun entry => entry.2.find route

theorem find_append (forest : Forest Name) (first second : List Name) :
    forest.find (first ++ second) = (forest.find first).bind fun below => below.find second := by
  induction first generalizing forest with
  | nil => rfl
  | cons name route induction =>
      rw [List.cons_append, find, find]
      cases forest.dirs.find? fun entry => entry.1 = name with
      | none => rfl
      | some entry => exact induction entry.2

theorem find_entry {forest below : Forest Name} {name : Name} (distinct : forest.Distinct)
    (member : (name, below) ∈ forest.dirs) :
    (forest.dirs.find? fun entry => entry.1 = name) = some (name, below) := by
  induction forest with
  | nil => cases member
  | file first rest induction => exact induction distinct.2 member
  | dir first inner rest _ induction =>
      rw [dirs] at member ⊢
      rcases List.mem_cons.mp member with same | later
      · cases same
        exact List.find?_cons_of_pos (decide_eq_true rfl)
      · have other : first ≠ name := by
          rintro rfl
          exact distinct.1 (mem_names.mpr (.inr (List.mem_map_of_mem (f := Prod.fst) later)))
        rw [List.find?_cons_of_neg (by simpa using other)]
        exact induction distinct.2.2 later

theorem find_dir {forest here below : Forest Name} {route : List Name} {name : Name}
    (found : forest.find route = some here) (distinct : here.Distinct)
    (member : (name, below) ∈ here.dirs) : forest.find (route ++ [name]) = some below := by
  rw [find_append, found, Option.bind_some, find, find_entry distinct member]
  rfl

def holding (name inside : Name) : Forest Name := dir name (file inside nil) nil

theorem find_holding (name inside : Name) (route : List Name) :
    (holding name inside).find route =
      if route = [] then some (holding name inside)
      else if route = [name] then some (file inside nil) else none := by
  cases route with
  | nil => rfl
  | cons first rest =>
      by_cases only : name = first
      · cases rest <;> simp [holding, find, dirs, only]
      · simp [holding, find, dirs, only, Ne.symm only]

end Routes

section Members

variable {forest : Forest Name}

theorem member_head {route : List Name} {kind : Bool} (member : (route, kind) ∈ forest.members) :
    ∃ name rest, route = name :: rest ∧ name ∈ forest.names := by
  induction forest with
  | nil => cases member
  | file first rest induction =>
      rcases List.mem_cons.mp member with same | later
      · cases same
        exact ⟨first, [], rfl, List.mem_cons_self⟩
      · obtain ⟨name, more, shape, known⟩ := induction later
        exact ⟨name, more, shape, List.mem_cons_of_mem _ known⟩
  | dir first below rest _ induction =>
      rcases List.mem_append.mp member with here | later
      · rcases List.mem_cons.mp here with same | inside
        · cases same
          exact ⟨first, [], rfl, List.mem_cons_self⟩
        · obtain ⟨inner, -, same⟩ := List.mem_map.mp inside
          cases same
          exact ⟨first, inner.1, rfl, List.mem_cons_self⟩
      · obtain ⟨name, more, shape, known⟩ := induction later
        exact ⟨name, more, shape, List.mem_cons_of_mem _ known⟩

theorem member_all {Holds : Name → Prop} (all : forest.All Holds) {route : List Name} {kind : Bool}
    (member : (route, kind) ∈ forest.members) : ∀ name ∈ route, Holds name := by
  induction forest generalizing route with
  | nil => cases member
  | file first rest induction =>
      rcases List.mem_cons.mp member with same | later
      · cases same
        exact fun name here => List.mem_singleton.mp here ▸ all.1
      · exact induction all.2 later
  | dir first below rest inner induction =>
      rcases List.mem_append.mp member with here | later
      · rcases List.mem_cons.mp here with same | inside
        · cases same
          exact fun name here => List.mem_singleton.mp here ▸ all.1
        · obtain ⟨deeper, known, same⟩ := List.mem_map.mp inside
          cases same
          intro name either
          rcases List.mem_cons.mp either with rfl | more
          · exact all.1
          · exact inner all.2.1 known name more
      · exact induction all.2.2 later

theorem all_of_members {Holds : Name → Prop}
    (every : ∀ member ∈ forest.members, ∀ name ∈ member.1, Holds name) : forest.All Holds := by
  induction forest with
  | nil => trivial
  | file first rest induction =>
      exact ⟨every _ List.mem_cons_self first List.mem_cons_self,
        induction fun member known => every member (List.mem_cons_of_mem _ known)⟩
  | dir first below rest inner induction =>
      refine ⟨every _ List.mem_cons_self first List.mem_cons_self, inner ?_, induction ?_⟩
      · intro member known name inside
        exact every (first :: member.1, member.2) (List.mem_append_left _ (List.mem_cons_of_mem _
          (List.mem_map.mpr ⟨member, known, rfl⟩))) name (List.mem_cons_of_mem _ inside)
      · exact fun member known => every member (List.mem_append_right _ known)

theorem listing_member {name : Name} {kind : Bool} (listed : (name, kind) ∈ forest.listing) :
    ([name], kind) ∈ forest.members := by
  induction forest with
  | nil => cases listed
  | file first rest induction =>
      rcases List.mem_cons.mp listed with same | later
      · cases same
        exact List.mem_cons_self
      · exact List.mem_cons_of_mem _ (induction later)
  | dir first below rest _ induction =>
      rcases List.mem_cons.mp listed with same | later
      · cases same
        exact List.mem_cons_self
      · exact List.mem_append_right _ (induction later)

theorem dir_member {below : Forest Name} {name : Name} {route : List Name} {kind : Bool}
    (known : (name, below) ∈ forest.dirs) (member : (route, kind) ∈ below.members) :
    (name :: route, kind) ∈ forest.members := by
  induction forest with
  | nil => cases known
  | file first rest induction => exact List.mem_cons_of_mem _ (induction known)
  | dir first inner rest _ induction =>
      rcases List.mem_cons.mp known with same | later
      · cases same
        apply List.mem_append_left
        apply List.mem_cons_of_mem
        exact List.mem_map.mpr ⟨_, member, rfl⟩
      · exact List.mem_append_right _ (induction later)

theorem member_cases {route : List Name} {kind : Bool} (member : (route, kind) ∈ forest.members) :
    (∃ name, route = [name] ∧ (name, kind) ∈ forest.listing) ∨
      ∃ name below rest, route = name :: rest ∧ (name, below) ∈ forest.dirs ∧
        (rest, kind) ∈ below.members := by
  induction forest with
  | nil => cases member
  | file first rest induction =>
      rcases List.mem_cons.mp member with same | later
      · cases same
        exact .inl ⟨first, rfl, List.mem_cons_self⟩
      · rcases induction later with ⟨name, shape, listed⟩ | ⟨name, below, more, shape, known, inside⟩
        · exact .inl ⟨name, shape, List.mem_cons_of_mem _ listed⟩
        · exact .inr ⟨name, below, more, shape, known, inside⟩
  | dir first below rest _ induction =>
      rcases List.mem_append.mp member with here | later
      · rcases List.mem_cons.mp here with same | inside
        · cases same
          exact .inl ⟨first, rfl, List.mem_cons_self⟩
        · obtain ⟨deeper, known, same⟩ := List.mem_map.mp inside
          cases same
          exact .inr ⟨first, below, deeper.1, rfl, List.mem_cons_self, known⟩
      · rcases induction later with ⟨name, shape, listed⟩ | ⟨name, inner, more, shape, known, inside⟩
        · exact .inl ⟨name, shape, List.mem_cons_of_mem _ listed⟩
        · exact .inr ⟨name, inner, more, shape, List.mem_cons_of_mem _ known, inside⟩

theorem routes_nodup (distinct : forest.Distinct) : (forest.members.map Prod.fst).Nodup := by
  induction forest with
  | nil => exact List.nodup_nil
  | file first rest induction =>
      rw [members, List.map_cons, List.nodup_cons]
      refine ⟨fun again => ?_, induction distinct.2⟩
      obtain ⟨member, known, same⟩ := List.mem_map.mp again
      obtain ⟨name, _, shape, listed⟩ := member_head known
      cases shape.symm.trans same
      exact distinct.1 listed
  | dir first below rest inner induction =>
      rw [members, List.cons_append, List.map_cons, List.map_append, List.map_map, List.nodup_cons,
        List.nodup_append]
      have nested : (Prod.fst ∘ fun member : List Name × Bool => (first :: member.1, member.2)) =
          (fun route => first :: route) ∘ Prod.fst := rfl
      have apart : ∀ route, first :: route ∉ rest.members.map Prod.fst := by
        intro route again
        obtain ⟨member, known, same⟩ := List.mem_map.mp again
        obtain ⟨name, _, shape, listed⟩ := member_head known
        cases shape.symm.trans same
        exact distinct.1 listed
      rw [nested, ← List.map_map]
      refine ⟨fun again => ?_, ?_, induction distinct.2.2, ?_⟩
      · rcases List.mem_append.mp again with inside | later
        · obtain ⟨route, known, same⟩ := List.mem_map.mp inside
          obtain ⟨member, there, rfl⟩ := List.mem_map.mp known
          obtain ⟨_, _, shape, -⟩ := member_head there
          rw [shape] at same
          cases same
        · exact apart [] later
      · rw [List.nodup_map_iff List.cons_injective]
        exact inner distinct.2.1
      · rintro left here right later rfl
        obtain ⟨route, -, rfl⟩ := List.mem_map.mp here
        exact apart route later

variable [DecidableEq Name]

theorem find_member {here : Forest Name} {route more : List Name} {kind : Bool}
    (found : forest.find route = some here) (member : (more, kind) ∈ here.members) :
    (route ++ more, kind) ∈ forest.members := by
  induction route generalizing forest with
  | nil =>
      cases found
      exact member
  | cons name route induction =>
      rw [find] at found
      obtain ⟨entry, known, inside⟩ := Option.bind_eq_some_iff.mp found
      have same : entry.1 = name := by simpa using List.find?_some known
      have there : (name, entry.2) ∈ forest.dirs := by
        rw [← same]
        exact List.mem_of_find?_eq_some known
      exact dir_member there (induction inside)

theorem member_find (distinct : forest.Distinct) {route more : List Name} {kind : Bool}
    (some : more ≠ []) (member : (route ++ more, kind) ∈ forest.members) :
    ∃ here, forest.find route = Option.some here ∧ (more, kind) ∈ here.members := by
  induction route generalizing forest with
  | nil => exact ⟨forest, rfl, member⟩
  | cons name route induction =>
      rcases member_cases member with ⟨_, shape, -⟩ | ⟨first, below, rest, shape, known, inside⟩
      · cases List.append_eq_nil_iff.mp (List.cons.inj shape).2 with
        | intro _ nothing => exact absurd nothing some
      · cases shape
        obtain ⟨here, found, there⟩ := induction (dir_distinct distinct known) inside
        refine ⟨here, ?_, there⟩
        rw [find, find_entry distinct known]
        exact found

theorem find_inherits {Holds : Name → Prop} {here : Forest Name} {route : List Name}
    (found : forest.find route = some here) (distinct : forest.Distinct) (all : forest.All Holds) :
    here.Distinct ∧ here.All Holds ∧ here.height ≤ forest.height := by
  induction route generalizing forest with
  | nil =>
      cases found
      exact ⟨distinct, all, Nat.le_refl _⟩
  | cons name route induction =>
      rw [find] at found
      obtain ⟨entry, known, inside⟩ := Option.bind_eq_some_iff.mp found
      have there := List.mem_of_find?_eq_some known
      obtain ⟨unique, every, low⟩ := induction inside (dir_distinct distinct there)
        (dir_all all there).2
      exact ⟨unique, every, Nat.le_trans low (Nat.le_of_lt (dir_height there))⟩

end Members

end Forest

end XRootDClient.Lib
