import XRootDClient.Client.Listing

/-!
# Walks over a remote namespace

`FileSystem.walk`, what `copy_tree` makes of it, and `rmtree`. A server may answer
every listing as it likes; the fuel is how deep it may lead a walk. Where the names
it gives are components without a question mark, everything stays below the
directory that was asked for.
-/

set_option autoImplicit false

namespace XRootDClient.Client

open Lib Lib.Posix

/-- `_normalize`: a single leading slash, a trailing one kept. -/
def normalize (path : Text) : Text :=
  if path = [] then [slash]
  else
    let norm := normpath (slash :: lstrip path)
    if path.getLast? = some slash ∧ 1 < path.length ∧ norm.getLast? ≠ some slash then norm ++ [slash]
    else norm

/-- The opaque data a path is given, told whether there was any and what. It begins
with a question mark. -/
structure Opaque where
  suffix : Bool → Text → Text
  marked : ∀ given cgi, suffix given cgi = [] ∨ (suffix given cgi).head? = some '?'

/-- `_cgi`: what was asked for, and what the filesystem's own URL adds to it. -/
def rootOpaque (extra : Text → Text) : Opaque where
  suffix given cgi :=
    let explicit := if given then cgi else []
    if extra explicit = [] then if explicit = [] then [] else '?' :: explicit
    else if explicit = [] then '?' :: extra explicit
    else '?' :: explicit ++ '&' :: extra explicit
  marked given cgi := by
    dsimp only
    split_ifs <;> simp

def davOpaque : Opaque where
  suffix given cgi := if given then '?' :: cgi else []
  marked given cgi := by
    cases given <;> simp

/-- A filesystem: the path of its URL, as `parse` leaves it, and its opaque data. -/
structure FileSystem where
  path : Text
  rooted : path.head? = some slash
  bare : '?' ∉ path
  data : Opaque

variable (fs : FileSystem)

def FileSystem.abs (path : Text) : Text :=
  let (base, given, cgi) := Text.partition '?' path
  let base := if base.head? = some slash then base else join fs.path base
  normpath base ++ fs.data.suffix given cgi

def splitCgi (path : Text) : Text × Text :=
  let (base, given, cgi) := Text.partition '?' path
  (base, if given then '?' :: cgi else [])

def DirEntry.isDirectory (entry : DirEntry) : Bool :=
  match entry.stat with
  | none => false
  | some stat => stat.flags / 2 % 2 = 1

structure Visit where
  dirpath : Text
  dirs : List Text
  files : List Text

/-- What the server answers, by the names that led there and the path it is asked for;
nothing where the listing raises. -/
abbrev Server := List Text → Text → Option (List DirEntry)

variable (server : Server)

def walk (topdown : Bool) : Nat → List Text → Text → List Visit
  | 0, _, _ => []
  | fuel + 1, route, top =>
      let root := fs.abs top
      match server route root with
      | none => []
      | some entries =>
          let (base, cgi) := splitCgi root
          let dirs := (entries.filter fun entry => entry.isDirectory).map DirEntry.name
          let files := (entries.filter fun entry => !entry.isDirectory).map DirEntry.name
          let below := dirs.flatMap fun name =>
            walk topdown fuel (route ++ [name]) (join base name ++ cgi)
          if topdown then ⟨base, dirs, files⟩ :: below else below ++ [⟨base, dirs, files⟩]

/-- `_walk` of a remote source: the path of every file from it. -/
def remoteWalk (fuel : Nat) (path : Text) : List Text :=
  let base := rstrip path
  (walk fs server true fuel [] path).flatMap fun visit =>
    let rel := lstrip (rstrip (visit.dirpath.drop base.length))
    visit.files.map fun name => if rel = [] then name else rel ++ slash :: name

def joined (path rel : Text) : Text := normalize (join path rel)

def FileSystem.deletes (path : Text) : Text := (splitCgi (fs.abs path)).1

def rmtree (fuel : Nat) (path : Text) : List Text :=
  let target := fs.abs path
  let cgi := (splitCgi target).2
  ((walk fs server false fuel [] target).flatMap fun visit =>
    (visit.files ++ visit.dirs).map fun name => fs.deletes (join visit.dirpath name ++ cgi)) ++
      [fs.deletes target]

def Below (root path : Text) (rest : List Text) : Prop :=
  ∃ front names, Front front ∧ (∀ name ∈ names ++ rest, Proper name) ∧
    root = render front names ∧ path = render front (names ++ rest)

def Under (root path : Text) : Prop := ∃ rest, Below root path rest

def StrictlyUnder (root path : Text) : Prop := ∃ rest, rest ≠ [] ∧ Below root path rest

def Plain (name : Text) : Prop := Proper name ∧ '?' ∉ name

/-- Every listing names only components without a question mark. -/
def Tame : Prop :=
  ∀ route path entries, server route path = some entries → ∀ entry ∈ entries, Plain entry.name

/-- A path from the root with opaque data behind it. -/
structure Placed (front : Text) (names : List Text) (path tail : Text) : Prop where
  known : Front front
  plain : ∀ name ∈ names, Plain name
  shape : path = render front names ++ tail
  marked : tail = [] ∨ tail.head? = some '?'

section Places

variable {fs server} {front path tail name : Text} {names : List Text}

theorem intercalate_bare (bare : ∀ name ∈ names, '?' ∉ name) : '?' ∉ [slash].intercalate names := by
  induction names with
  | nil => exact List.not_mem_nil
  | cons name rest induction =>
      have later := induction fun other member => bare other (List.mem_cons_of_mem _ member)
      have here := bare name List.mem_cons_self
      cases rest with
      | nil => simpa using here
      | cons first others =>
          rw [List.intercalate_cons_of_ne_nil (List.cons_ne_nil _ _)]
          simp only [List.mem_append, not_or]
          exact ⟨⟨here, by decide⟩, later⟩

theorem render_bare (known : Front front) (plain : ∀ name ∈ names, Plain name) :
    '?' ∉ render front names := by
  rw [render, List.mem_append, not_or]
  refine ⟨?_, intercalate_bare fun name member => (plain name member).2⟩
  rcases known with rfl | rfl <;> decide

theorem render_head (known : Front front) : (render front names).head? = some slash := by
  rcases known with rfl | rfl <;> rfl

theorem partition_marked {base : Text} (bare : '?' ∉ base)
    (marked : tail = [] ∨ tail.head? = some '?') :
    Text.partition '?' (base ++ tail) = (base, !tail.isEmpty, List.tail tail) := by
  have before : ∀ char ∈ base, decide (char ≠ '?') = true := fun char member =>
    decide_eq_true fun same => bare (same ▸ member)
  rw [Text.partition, List.takeWhile_append_of_pos before, List.dropWhile_append_of_pos before]
  cases tail with
  | nil => simp
  | cons char rest =>
      rcases marked with none | same
      · cases none
      · cases same
        simp

theorem Placed.split (placed : Placed front names path tail) :
    splitCgi path = (render front names, tail) := by
  unfold splitCgi
  rw [placed.shape, partition_marked (render_bare placed.known placed.plain) placed.marked]
  cases tail with
  | nil => rfl
  | cons char rest =>
      rcases placed.marked with none | same
      · cases none
      · cases same
        rfl

theorem Placed.abs (placed : Placed front names path tail) :
    ∃ tail, Placed front names (fs.abs path) tail := by
  have proper : ∀ name ∈ names, Proper name := fun name member => (placed.plain name member).1
  refine ⟨fs.data.suffix (!tail.isEmpty) (List.tail tail), placed.known, placed.plain, ?_,
    fs.data.marked _ _⟩
  unfold FileSystem.abs
  rw [placed.shape, partition_marked (render_bare placed.known placed.plain) placed.marked]
  dsimp only
  rw [if_pos (render_head placed.known), normpath_render placed.known proper]

theorem Placed.join (placed : Placed front names path tail) (next_ : Plain name) :
    Placed front (names ++ [name]) (Posix.join (render front names) name ++ tail) tail := by
  have proper : ∀ name ∈ names, Proper name := fun name member => (placed.plain name member).1
  refine ⟨placed.known, fun other member => ?_, ?_, placed.marked⟩
  · rcases List.mem_append.mp member with early | last
    · exact placed.plain other early
    · rw [List.mem_singleton.mp last]
      exact next_
  · rw [join_render placed.known proper next_.1]

theorem join_head {head : Text} (rooted : head.head? = some slash) (rest : Text) :
    (join head rest).head? = some slash := by
  cases head with
  | nil => cases rooted
  | cons char more =>
      cases rooted
      unfold join
      split_ifs with absolute
      · exact absolute
      · rfl
      · rfl

theorem join_bare {head rest : Text} (one : '?' ∉ head) (two : '?' ∉ rest) :
    '?' ∉ join head rest := by
  unfold join
  split_ifs
  · exact two
  · exact fun member => (List.mem_append.mp member).elim one two
  · intro member
    rcases List.mem_append.mp member with early | late
    · exact one early
    · rcases List.mem_cons.mp late with mark | last
      · revert mark
        decide
      · exact two last

theorem abs_placed (fs : FileSystem) (path : Text) :
    ∃ front names tail, Placed front names (fs.abs path) tail := by
  unfold FileSystem.abs
  generalize split : Text.partition '?' path = pieces
  obtain ⟨base, given, cgi⟩ := pieces
  have bare : '?' ∉ base := by
    have same : path.takeWhile (· ≠ '?') = base := by
      unfold Text.partition at split
      dsimp only at split
      cases rest : path.dropWhile (· ≠ '?') with
      | nil =>
          rw [rest] at split
          exact (Prod.mk.inj split).1
      | cons char more =>
          rw [rest] at split
          exact (Prod.mk.inj split).1
    rw [← same]
    exact fun member => by simpa using List.mem_takeWhile_imp member
  dsimp only
  have known : ∀ text : Text, text.head? = some slash → '?' ∉ text →
      ∃ front names tail, Placed front names (normpath text ++ fs.data.suffix given cgi) tail := by
    intro text rooted clean
    obtain ⟨front, norm⟩ := normpath_rooted rooted
    refine ⟨lead text, parts true text, fs.data.suffix given cgi, front, fun name member => ?_, ?_,
      fs.data.marked given cgi⟩
    · exact ⟨parts_proper text name member, parts_mem clean name member⟩
    · rw [norm]
  split_ifs with rooted
  · exact known base rooted bare
  · exact known _ (join_head fs.rooted base) (join_bare fs.bare bare)

theorem walk_below (tame : Tame server) (topdown : Bool) {fuel : Nat} {route : List Text}
    (here : Placed front names (fs.abs path) tail) :
    ∀ visit ∈ walk fs server topdown fuel route path, ∃ more,
      (∀ name ∈ more, Plain name) ∧ visit.dirpath = render front (names ++ more) ∧
      ∀ name ∈ visit.files ++ visit.dirs, Plain name := by
  induction fuel generalizing route names path tail with
  | zero => exact fun visit member => absurd member List.not_mem_nil
  | succ fuel induction =>
      intro visit member
      rw [walk] at member
      dsimp only at member
      cases reply : server route (fs.abs path) with
      | none =>
          rw [reply] at member
          cases member
      | some entries =>
          rw [reply, here.split] at member
          dsimp only at member
          have plain := tame _ _ _ reply
          generalize dirs : (entries.filter fun entry => entry.isDirectory).map DirEntry.name = dirs_,
            files : (entries.filter fun entry => !entry.isDirectory).map DirEntry.name = files_
            at member
          have dirsPlain : ∀ name ∈ dirs_, Plain name := by
            intro name listed_
            rw [← dirs] at listed_
            obtain ⟨entry, kept, rfl⟩ := List.mem_map.mp listed_
            exact plain entry (List.mem_of_mem_filter kept)
          have filesPlain : ∀ name ∈ files_, Plain name := by
            intro name listed_
            rw [← files] at listed_
            obtain ⟨entry, kept, rfl⟩ := List.mem_map.mp listed_
            exact plain entry (List.mem_of_mem_filter kept)
          have either : visit = ⟨render front names, dirs_, files_⟩ ∨
              ∃ name ∈ dirs_, visit ∈ walk fs server topdown fuel (route ++ [name])
                (join (render front names) name ++ tail) := by
            cases topdown with
            | true =>
                rcases List.mem_cons.mp member with self | below
                · exact .inl self
                · exact .inr (List.mem_flatMap.mp below)
            | false =>
                rcases List.mem_append.mp member with below | self
                · exact .inr (List.mem_flatMap.mp below)
                · exact .inl (List.mem_singleton.mp self)
          rcases either with rfl | ⟨name, listed_, below⟩
          · refine ⟨[], fun name none => absurd none List.not_mem_nil, by rw [List.append_nil], ?_⟩
            intro name either
            exact (List.mem_append.mp either).elim (filesPlain name) (dirsPlain name)
          · obtain ⟨behind, there⟩ := @Placed.abs fs _ _ _ _ (here.join (dirsPlain name listed_))
            obtain ⟨more, deeper, shape, rest⟩ := induction there visit below
            refine ⟨name :: more, fun other member_ => ?_, ?_, rest⟩
            · rcases List.mem_cons.mp member_ with rfl | later
              · exact dirsPlain other listed_
              · exact deeper other later
            · rw [shape, List.append_assoc, List.singleton_append]

theorem below_plain {more : List Text} (known : Front front) (one : ∀ name ∈ names, Plain name)
    (two : ∀ name ∈ more, Plain name) :
    Below (render front names) (render front (names ++ more)) more :=
  ⟨front, names, known, fun name member =>
    (List.mem_append.mp member).elim (fun early => (one name early).1) fun late => (two name late).1,
    rfl, rfl⟩

theorem rmtree_under (tame : Tame server) (fuel : Nat) (path : Text) :
    ∀ gone ∈ rmtree fs server fuel path, Under (fs.deletes path) gone := by
  obtain ⟨front, names, tail, placed⟩ := abs_placed fs path
  have root : fs.deletes path = render front names := by
    rw [FileSystem.deletes, placed.split]
  obtain ⟨behind, again⟩ := @Placed.abs fs _ _ _ _ placed
  intro gone member
  rw [rmtree, placed.split] at member
  rcases List.mem_append.mp member with below | self
  · obtain ⟨visit, visited, named_⟩ := List.mem_flatMap.mp below
    obtain ⟨name, listed_, rfl⟩ := List.mem_map.mp named_
    obtain ⟨more, plain, shape, rest⟩ := walk_below tame false again visit visited
    have deeper : Placed front (names ++ more) (render front (names ++ more) ++ tail) tail :=
      ⟨placed.known, fun name member_ => (List.mem_append.mp member_).elim (placed.plain name)
        (plain name), rfl, placed.marked⟩
    obtain ⟨last, final_⟩ := @Placed.abs fs _ _ _ _ (deeper.join (rest name listed_))
    refine ⟨more ++ [name], ?_⟩
    have there : fs.deletes (join visit.dirpath name ++ tail) =
        render front (names ++ (more ++ [name])) := by
      rw [shape, FileSystem.deletes, final_.split, List.append_assoc]
    rw [root, there]
    refine below_plain placed.known placed.plain fun other member_ => ?_
    rcases List.mem_append.mp member_ with early | late
    · exact plain other early
    · rw [List.mem_singleton.mp late]
      exact rest name listed_
  · have there : fs.deletes (fs.abs path) = render front names := by
      rw [FileSystem.deletes, again.split]
    rw [List.mem_singleton.mp self, there, root]
    refine ⟨[], ?_⟩
    have same := @below_plain front names [] placed.known placed.plain
      fun name none => absurd none List.not_mem_nil
    rwa [List.append_nil] at same

theorem parts_lstrip (rooted : Bool) (path : Text) : parts rooted (lstrip path) = parts rooted path := by
  induction path with
  | nil => rfl
  | cons char rest induction =>
      rw [lstrip, List.dropWhile_cons]
      split_ifs with same
      · rw [of_decide_eq_true same, parts_slash]
        exact induction
      · rfl

theorem lstrip_head (path : Text) : (lstrip path).takeWhile (· = slash) = [] := by
  have head := List.head?_dropWhile_not (· = slash) path
  rw [lstrip]
  generalize path.dropWhile (· = slash) = rest at head
  cases rest with
  | nil => rfl
  | cons char more =>
      rw [List.takeWhile_cons, if_neg]
      simpa using head

theorem lead_lstrip (path : Text) : lead (slash :: lstrip path) = [slash] := by
  have one : ((slash :: lstrip path).takeWhile (· = slash)).length = 1 := by
    rw [List.takeWhile_cons, if_pos (by simp), lstrip_head]
    rfl
  rw [lead, one]
  rfl

theorem normalize_shape (path : Text) : ∃ trailing,
    normalize path = render [slash] (parts true path) ++ trailing ∧
    (trailing = [] ∨ trailing = [slash] ∧ path.getLast? = some slash ∧ parts true path ≠ []) := by
  unfold normalize
  split_ifs with none
  · subst none
    exact ⟨[], rfl, .inl rfl⟩
  · have norm : normpath (slash :: lstrip path) = render [slash] (parts true path) := by
      rw [(@normpath_rooted (slash :: lstrip path) rfl).2, lead_lstrip, parts_slash, parts_lstrip]
    dsimp only
    rw [norm]
    split_ifs with slashed
    · refine ⟨[slash], rfl, .inr ⟨rfl, slashed.1, fun empty => ?_⟩⟩
      rw [empty] at slashed
      exact slashed.2.2 rfl
    · exact ⟨[], (List.append_nil _).symm, .inl rfl⟩

theorem rstrip_ends {rest : Text} {char : Char} (other : char ≠ slash) :
    rstrip (rest ++ [char]) = rest ++ [char] := by
  rw [rstrip, List.reverse_append]
  simp [other]

theorem rstrip_slash (path : Text) : rstrip (path ++ [slash]) = rstrip path := by
  rw [rstrip, List.reverse_append]
  simp [rstrip]

theorem rstrip_render (proper : ∀ name ∈ names, Proper name) :
    rstrip (render [slash] names) = if names = [] then [] else render [slash] names := by
  split_ifs with none
  · subst none
    rfl
  · obtain ⟨rest, char, shape, other⟩ := intercalate_last proper none
    rw [render, shape, ← List.append_assoc, rstrip_ends other]

theorem rstrip_normalize (path : Text) : rstrip (normalize path) =
    if parts true path = [] then [] else render [slash] (parts true path) := by
  obtain ⟨trailing, shape, either⟩ := normalize_shape path
  rw [shape, ← rstrip_render (parts_proper path)]
  rcases either with rfl | ⟨rfl, -, -⟩
  · rw [List.append_nil]
  · exact rstrip_slash _

theorem trimmed_normalize (path : Text) :
    trimmed (normalize path) = render [slash] (parts true path) := by
  rw [trimmed, rstrip_normalize]
  by_cases none : parts true path = []
  · rw [none]
    rfl
  · rw [if_neg none, if_neg]
    exact List.cons_ne_nil _ _

theorem intercalate_append {more : List Text} (one : names ≠ []) (two : more ≠ []) :
    [slash].intercalate (names ++ more) =
      [slash].intercalate names ++ slash :: [slash].intercalate more := by
  induction names with
  | nil => exact absurd rfl one
  | cons name rest induction =>
      cases rest with
      | nil => simp [List.intercalate_cons_of_ne_nil two]
      | cons first others =>
          rw [List.cons_append, List.intercalate_cons_of_ne_nil (by simp),
            induction (List.cons_ne_nil _ _),
            List.intercalate_cons_of_ne_nil (List.cons_ne_nil first others)]
          simp

theorem rel_shape {more : List Text} (path : Text) (proper : ∀ name ∈ more, Proper name) :
    lstrip (rstrip ((render [slash] (parts true path ++ more)).drop
      (rstrip (normalize path)).length)) = [slash].intercalate more := by
  have cut : ∀ text, text = slash :: [slash].intercalate more →
      lstrip (rstrip text) = [slash].intercalate more := by
    rintro text rfl
    have same := rstrip_render proper
    rw [render, List.singleton_append] at same
    rw [same]
    by_cases none : more = []
    · rw [if_pos none, none]
      rfl
    · rw [if_neg none, lstrip, List.dropWhile_cons, if_pos (by simp)]
      have starts := intercalate_head proper
      generalize [slash].intercalate more = text at starts
      cases text with
      | nil => rfl
      | cons char rest =>
          rw [List.dropWhile_cons, if_neg]
          simp only [decide_eq_true_eq]
          rintro rfl
          exact starts rest rfl
  rw [rstrip_normalize]
  by_cases top : parts true path = []
  · rw [if_pos top, top, List.nil_append]
    exact cut _ rfl
  · rw [if_neg top]
    by_cases none : more = []
    · rw [none, List.append_nil, List.drop_length]
      rfl
    · rw [render, render, intercalate_append top none, ← List.append_assoc, List.drop_left]
      exact cut _ rfl

theorem joined_strictly {rest : List Text} (target : Text) (proper : ∀ name ∈ rest, Proper name)
    (some : rest ≠ []) :
    StrictlyUnder (trimmed (normalize target)) (joined target ([slash].intercalate rest)) := by
  obtain ⟨more, char, shape, other⟩ := intercalate_last proper some
  have starts : ([slash].intercalate rest).head? ≠ .some slash := by
    intro same
    have head := intercalate_head proper
    generalize [slash].intercalate rest = text at same head
    cases text with
    | nil => cases same
    | cons first others =>
        cases same
        exact head others rfl
  have components : parts true (join target ([slash].intercalate rest)) =
      parts true target ++ rest := by
    rw [join, if_neg starts]
    by_cases slashed : target = [] ∨ target.getLast? = .some slash
    · rw [if_pos slashed]
      rcases slashed with rfl | last
      · exact climb_split proper
      · obtain ⟨front, rfl⟩ := List.getLast?_eq_some_iff.mp last
        have same : parts true (front ++ [slash]) = parts true front := parts_append front []
        rw [List.append_assoc, List.singleton_append, parts_append, climb_split proper, same]
    · rw [if_neg slashed, parts_append, climb_split proper]
  have ends : (join target ([slash].intercalate rest)).getLast? ≠ .some slash := by
    have last : ∀ front : Text, (front ++ [slash].intercalate rest).getLast? ≠ .some slash := by
      intro front
      rw [shape, ← List.append_assoc, List.getLast?_concat]
      simpa using other
    rw [join, if_neg starts]
    split_ifs
    · exact last target
    · have whole := last (target ++ [slash])
      rwa [List.append_assoc, List.singleton_append] at whole
  obtain ⟨trailing, normal, either⟩ := normalize_shape (join target ([slash].intercalate rest))
  have none : trailing = [] := either.resolve_right fun slashed => ends slashed.2.1
  refine ⟨rest, some, [slash], parts true target, .inl rfl, fun name member => ?_,
    trimmed_normalize target, ?_⟩
  · exact (List.mem_append.mp member).elim (parts_proper target name) (proper name)
  · rw [joined, normal, none, List.append_nil, components]

theorem abs_normalize {source : Text} (bare : '?' ∉ source) :
    ∃ tail, Placed [slash] (parts true source) (fs.abs (normalize source)) tail := by
  have plain : ∀ name ∈ parts true source, Plain name := fun name member =>
    ⟨parts_proper source name member, parts_mem bare name member⟩
  obtain ⟨trailing, shape, either⟩ := normalize_shape source
  rcases either with rfl | ⟨rfl, -, some⟩
  · rw [shape]
    have placed : Placed [slash] (parts true source)
        (render [slash] (parts true source) ++ []) [] := ⟨.inl rfl, plain, rfl, .inl rfl⟩
    exact placed.abs
  · have clean : '?' ∉ render [slash] (parts true source) ++ [slash] := by
      rw [List.mem_append, not_or]
      exact ⟨render_bare (.inl rfl) plain, by decide⟩
    have split := partition_marked clean (.inl (rfl : ([] : Text) = []))
    rw [List.append_nil] at split
    refine ⟨fs.data.suffix false [], .inl rfl, plain, ?_, fs.data.marked _ _⟩
    unfold FileSystem.abs
    rw [shape, split]
    have rooted : (render [slash] (parts true source) ++ [slash]).head? = .some slash := rfl
    dsimp only
    rw [if_pos rooted, normpath_trailing (parts_proper source) some]
    rfl

/-- Every path a walk of the source yields, joined to a target, lies strictly below it. -/
theorem remote_walk_strictly (tame : Tame server) (fuel : Nat) {source : Text}
    (bare : '?' ∉ source) (target : Text) :
    ∀ rel ∈ remoteWalk fs server fuel (normalize source),
      StrictlyUnder (trimmed (normalize target)) (joined target rel) := by
  intro rel member
  rw [remoteWalk] at member
  obtain ⟨visit, visited, yielded⟩ := List.mem_flatMap.mp member
  obtain ⟨name, listed_, rfl⟩ := List.mem_map.mp yielded
  obtain ⟨tail, placed⟩ := @abs_normalize fs source bare
  obtain ⟨more, plain, shape, rest⟩ := walk_below tame true placed visit visited
  have proper : ∀ name ∈ more, Proper name := fun name member_ => (plain name member_).1
  have named_ : Proper name := (rest name (List.mem_append_left _ listed_)).1
  have whole : (if [slash].intercalate more = [] then name else [slash].intercalate more ++
      slash :: name) = [slash].intercalate (more ++ [name]) := by
    by_cases none : more = []
    · subst none
      simp
    · obtain ⟨front, char, ends, -⟩ := intercalate_last proper none
      rw [if_neg (by rw [ends]; simp), intercalate_concat none]
  rw [shape, rel_shape source proper, whole]
  refine joined_strictly target (fun other member_ => ?_) (by simp)
  rcases List.mem_append.mp member_ with early | late
  · exact proper other early
  · rw [List.mem_singleton.mp late]
    exact named_

end Places

/-- A listing that returns names only components exactly when its reply does, and where
every listing names components without a question mark, what `copy_tree` writes and
what `rmtree` deletes stays below the directory that was asked for. -/
theorem listings_proper_iff (python : Builtins) (url : UrlFunctions) (iso8601 : Text → Int) :
    (∀ data path withStat entries, parseDirlist python data path withStat = .ok entries →
      (AllProper entries ↔ (plain (listed data) withStat = true → dot ∉ listed data))) ∧
    (∀ host target responses entries, davScandir url host target responses = .ok entries →
      (AllProper entries ↔ ∀ response ∈ responses,
        trimmed (hrefPath url response.href) ≠ trimmed target →
        basename (trimmed (hrefPath url response.href)) ≠ dot ∧
          basename (trimmed (hrefPath url response.href)) ≠ dots)) ∧
    (∀ key md5 pages entries, s3Scandir python iso8601 key md5 pages = .ok entries →
      (AllProper entries ↔
        ∀ page ∈ asked pages, CleanPage (if key = [] then [] else key ++ [slash]) page)) ∧
    ∀ fs server, Tame server →
      (∀ fuel source target, '?' ∉ source → ∀ rel ∈ remoteWalk fs server fuel (normalize source),
        StrictlyUnder (trimmed (normalize target)) (joined target rel)) ∧
      ∀ fuel path, ∀ gone ∈ rmtree fs server fuel path, Under (fs.deletes path) gone := by
  refine ⟨fun _ _ _ _ => dirlist_proper_iff, fun _ _ _ _ => dav_proper_iff,
    fun _ _ _ _ => s3_pages_proper_iff, fun fs server tame => ⟨?_, ?_⟩⟩
  · exact fun fuel source target bare => remote_walk_strictly tame fuel bare target
  · exact fun fuel path => rmtree_under tame fuel path

def identities : Builtins where
  int _ := some 0
  repr := id
  lower := id

def asWritten : UrlFunctions where
  urlsplitPath := id
  unquote := id

def atRoot : FileSystem where
  path := [slash]
  rooted := rfl
  bare := by decide
  data := davOpaque

/-- A server that lists one directory in the root and one file in the directory. -/
def oneFile : Server := fun route _ =>
  some [{ name := ['a'], stat := if route = [] then some { flags := 2 } else none }]

theorem one_file_stays :
    remoteWalk atRoot oneFile 2 (normalize (str "/s")) = [str "a/a"] ∧
      StrictlyUnder (trimmed (normalize (str "/t"))) (joined (str "/t") (str "a/a")) := by
  have tame : Tame oneFile := by
    rintro route path entries ⟨⟩ entry member
    have named_ : entry.name = ['a'] := by rw [List.mem_singleton.mp member]
    rw [named_]
    exact ⟨by decide, by decide⟩
  have walked : remoteWalk atRoot oneFile 2 (normalize (str "/s")) = [str "a/a"] := by
    decide +kernel
  refine ⟨walked, ?_⟩
  have stays := ((listings_proper_iff identities asWritten fun _ => 0).2.2.2 atRoot oneFile tame).1 2
    (str "/s") (str "/t") (by decide)
  exact stays (str "a/a") (by rw [walked]; exact List.mem_singleton_self _)

/-- A server that lists one file, whose name is two dots and a question mark. -/
def climbing : Server := fun _ _ => some [{ name := str "..?" }]

theorem not_under_root {path : Text} (other : path ≠ [slash]) : ¬ Under path [slash] := by
  rintro ⟨rest, front, names, known, proper, rfl, same⟩
  by_cases none : names ++ rest = []
  · obtain ⟨rfl, rfl⟩ := List.append_eq_nil_iff.mp none
    exact other same.symm
  · obtain ⟨more, char, ends, apart⟩ := intercalate_last proper none
    rw [render, ends, ← List.append_assoc] at same
    have last := congrArg List.getLast? same
    rw [List.getLast?_concat] at last
    exact apart (Option.some.inj last).symm

/-- Every one of the three takes a name that is no component: a dot, two dots, and a
path that climbs out of the directory; and a component with a question mark leads a
deletion out of it. -/
theorem listings_that_escape :
    (∃ entries, parseDirlist identities [97, 10, 46] (str "/d") true = .ok entries ∧
      entries.map DirEntry.name = [str "a", str "."] ∧ ¬ AllProper entries) ∧
    (∃ entries, davScandir asWritten (str "host") (str "/d/") [⟨str "/d/..", {}⟩] = .ok entries ∧
      entries.map DirEntry.name = [str ".."] ∧ ¬ AllProper entries) ∧
    (∃ entries, s3Scandir identities (fun _ => 0) (str "d") false
        [⟨[str "d/../../etc/"], [], []⟩] = .ok entries ∧
      entries.map DirEntry.name = [str "../../etc"] ∧ ¬ AllProper entries) ∧
    ∃ gone ∈ rmtree atRoot climbing 1 (str "/d"), ¬ Under (atRoot.deletes (str "/d")) gone := by
  have escapes : ∀ (entries : List DirEntry) (name : Text), name ∈ entries.map DirEntry.name →
      ¬ Proper name → ¬ AllProper entries := by
    intro entries name member improper proper
    obtain ⟨entry, listed_, rfl⟩ := List.mem_map.mp member
    exact improper (proper entry listed_)
  refine ⟨⟨_, rfl, by decide +kernel, ?_⟩, ⟨_, rfl, by decide +kernel, ?_⟩,
    ⟨_, rfl, by decide +kernel, ?_⟩, [slash], by decide +kernel, ?_⟩
  · exact escapes _ (str ".") (by decide +kernel) (by decide)
  · exact escapes _ (str "..") (by decide +kernel) (by decide)
  · exact escapes _ (str "../../etc") (by decide +kernel) (by decide)
  · exact not_under_root (by decide +kernel)

end XRootDClient.Client
