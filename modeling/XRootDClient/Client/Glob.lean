import Mathlib.Data.Char
import Mathlib.Data.List.Lex
import XRootDClient.Client.Walk
import XRootDClient.Lib.Forest
import XRootDClient.Lib.Regex

/-!
# Globs

`_glob_regex`, `_literal_prefix` and `FileSystem.glob`. A pattern is scanned into the
pieces of a regular expression; what is matched against it is the listing of one
directory, where only the last component has wildcards, or else everything below the
longest part that has none.
-/

set_option autoImplicit false

namespace XRootDClient.Glob

open Lib Lib.Posix
open Client (DirEntry FileSystem Visit Placed Plain splitCgi)

inductive Token where
  | deep
  | any
  | star
  | one
  | group (body : Text)
  | literal (char : Char)
  deriving DecidableEq

def special : Text := str "()[]\x7b\x7d?*+-|^$\\.&~# \t\n\r\x0b\x0c"

def escape (char : Char) : Text := if char ∈ special then ['\\', char] else [char]

/-- A body with its backslashes doubled, and its negation as a set writes it. -/
def setText (body : Text) : Text :=
  match body.flatMap fun char => if char = '\\' then ['\\', '\\'] else [char] with
  | '!' :: more => '^' :: more
  | doubled => doubled

def Token.text : Token → Text
  | deep => str "(?:[^/]+/)*"
  | any => str ".*"
  | star => str "[^/]*"
  | one => str "[^/]"
  | group body => '[' :: setText body ++ [']']
  | literal char => escape char

/-- The loop of `_glob_regex`, told how many characters the last piece took beyond its
first. -/
def scan : Nat → Text → List Token
  | _, [] => []
  | skip + 1, _ :: rest => scan skip rest
  | 0, char :: rest =>
      if char = '*' ∧ rest.take 2 = ['*', '/'] then .deep :: scan 2 rest
      else if char = '*' ∧ rest.head? = some '*' then .any :: scan 1 rest
      else if char = '*' then .star :: scan 0 rest
      else if char = '?' then .one :: scan 0 rest
      else if char = '[' then
        if ']' ∈ rest then
          let body := rest.takeWhile (· ≠ ']')
          .group body :: scan (body.length + 1) rest
        else .literal '[' :: scan 0 rest
      else .literal char :: scan 0 rest

def globRegex (pattern : Text) : Text := (scan 0 pattern).flatMap Token.text

def magic : Text := str "*?["

def literalPrefix (pattern : Text) : Text :=
  let keep := (pattern.splitOn slash).dropLast.takeWhile fun part => !part.any fun char => char ∈ magic
  let text := [slash].intercalate keep
  if text = [] then [slash] else text

/-- What a glob comes to: the paths it yields, and whether it raises then. -/
structure Outcome where
  yielded : List Text
  raised : Bool
  deriving DecidableEq

/-- What a server answers to a listing, with stats or without; nothing where it raises. -/
abbrev Lists := Bool → Text → Option (List DirEntry)

def doubleStar : Text → Bool
  | '*' :: '*' :: _ => true
  | _ :: rest => doubleStar rest
  | [] => false

def fulls (visit : Visit) : List Text :=
  ((visit.dirs ++ visit.files).mergeSort fun left right => decide (left ≤ right)).map fun name =>
    join visit.dirpath name

section Model

variable (fs : FileSystem) (lists : Lists)

/-- `walk`, whose `scandir` resolves its path once more. -/
def walk (fuel : Nat) (top : Text) : List Visit :=
  Client.walk fs (fun _ root => lists true (fs.abs root)) true fuel [] top

def glob (fuel : Nat) (pattern root : Text) : Outcome :=
  let (base, cgi) := splitCgi (fs.abs (if root = [] then [slash] else root))
  let target := if pattern.head? = some slash then pattern else join base pattern
  match Pattern.compile (globRegex target) with
  | none => ⟨[], true⟩
  | some items =>
      let start := literalPrefix target
      if doubleStar (basename target) = false ∧ start = dirname target then
        match lists false (fs.abs (start ++ cgi)) with
        | none => ⟨[], true⟩
        | some entries =>
            ⟨(entries.map fun entry => join start entry.name).filter
              fun full => (Regex.concat items).accepts full, false⟩
      else
        ⟨((walk fs lists fuel (start ++ cgi)).flatMap fulls).filter
          fun full => (Regex.concat items).accepts full, false⟩

end Model

example : globRegex (str "/a-b/**/*.[!x\\]?") = str "/a\\-b/(?:[^/]+/)*[^/]*\\.[^x\\\\][^/]" := by
  decide

example : literalPrefix (str "/store/mc/**/*.root") = str "/store/mc" := by decide

def slashless : Regex := .among ⟨true, [('/', '/')]⟩

/-- The item a piece is compiled to, with whether it is a repetition. A group has none of
its own: it may run on into the next. -/
def Token.node : Token → Regex × Bool
  | deep => (.star (.concat [.seq slashless (.star slashless), .among (.single '/')]), true)
  | any => (.star (.among .dot), true)
  | star => (.star slashless, true)
  | one => (slashless, false)
  | group _ => (.never, false)
  | literal char => (.among (.single char), false)

def Token.isGroup : Token → Bool
  | group _ => true
  | _ => false

theorem plain_other {char : Char} (other : char ∉ special) (parser : Pattern.Parser) :
    parser.plain char = some (parser.add (.among (.single char))) := by
  have differs : ∀ mark ∈ special, char ≠ mark := fun mark known same => other (same ▸ known)
  have unread : char ∉ ['?', '|', '^', '$', '\x7b', '\x7d'] := by
    intro member
    have inside : ['?', '|', '^', '$', '\x7b', '\x7d'].all (· ∈ special) = true := by decide
    exact other (of_decide_eq_true (List.all_eq_true.mp inside char member))
  unfold Pattern.Parser.plain
  rw [if_neg (differs _ (by decide)), if_neg (differs _ (by decide)), if_neg (differs _ (by decide)),
    if_neg (differs _ (by decide)), if_neg (differs _ (by decide)), if_neg (differs _ (by decide)),
    if_neg (differs _ (by decide)), if_neg unread]

theorem special_mark : ∀ char ∈ special, char.isAlphanum = false := by
  have marks : special.all (!·.isAlphanum) = true := by decide
  intro char member
  have mark := List.all_eq_true.mp marks char member
  rwa [Bool.not_eq_true'] at mark

theorem token_run {token : Token} (single : token.isGroup = false)
    (items : List (Regex × Bool)) (outer : List (List (Regex × Bool))) :
    Pattern.run ⟨.plain, items, outer⟩ token.text = some ⟨.plain, token.node :: items, outer⟩ := by
  cases token with
  | deep => rfl
  | any => rfl
  | star => rfl
  | one => rfl
  | group body => cases single
  | literal char =>
      rw [Token.text, escape]
      split_ifs with marked
      · have mark := special_mark char marked
        change (if char.isAlphanum = true then none else some _) >>= pure = _
        rw [mark]
        rfl
      · change (Pattern.Parser.plain _ char) >>= pure = _
        rw [plain_other marked]
        rfl

theorem tokens_run {tokens : List Token} (single : ∀ token ∈ tokens, token.isGroup = false)
    (items : List (Regex × Bool)) (outer : List (List (Regex × Bool))) :
    Pattern.run ⟨.plain, items, outer⟩ (tokens.flatMap Token.text) =
      some ⟨.plain, (tokens.map Token.node).reverse ++ items, outer⟩ := by
  induction tokens generalizing items with
  | nil => rfl
  | cons token rest induction =>
      rw [List.forall_mem_cons] at single
      rw [List.flatMap_cons, Pattern.run_append, token_run single.1, Option.bind_some,
        induction single.2]
      simp

theorem tokens_compile {tokens : List Token} (single : ∀ token ∈ tokens, token.isGroup = false) :
    Pattern.compile (tokens.flatMap Token.text) =
      some (tokens.map fun token => token.node.1) := by
  rw [Pattern.compile, Pattern.start, tokens_run single, Option.bind_some, if_pos ⟨rfl, rfl⟩]
  simp [Pattern.sequence]

theorem scan_single {pattern : Text} (bare : '[' ∉ pattern) (skip : Nat) :
    ∀ token ∈ scan skip pattern, token.isGroup = false := by
  induction pattern generalizing skip with
  | nil => simp [scan]
  | cons char rest induction =>
      rw [List.mem_cons, not_or] at bare
      have later := induction bare.2
      cases skip with
      | succ skip => exact later skip
      | zero =>
          have other : char ≠ '[' := Ne.symm bare.1
          rw [scan]
          split_ifs <;> exact List.forall_mem_cons.mpr ⟨rfl, later _⟩

theorem scan_literal {char : Char} (plain : char ∉ magic) (rest : Text) :
    scan 0 (char :: rest) = .literal char :: scan 0 rest := by
  have differs : ∀ mark ∈ magic, char ≠ mark := fun mark known same => plain (same ▸ known)
  have star := differs '*' (by decide)
  rw [scan, if_neg fun both => star both.1, if_neg fun both => star both.1, if_neg star,
    if_neg (differs '?' (by decide)), if_neg (differs '[' (by decide))]

theorem scan_plain {front : Text} (plain : ∀ char ∈ front, char ∉ magic) (rest : Text) :
    scan 0 (front ++ rest) = front.map .literal ++ scan 0 rest := by
  induction front with
  | nil => rfl
  | cons char front induction =>
      rw [List.forall_mem_cons] at plain
      rw [List.cons_append, scan_literal plain.1, induction plain.2]
      rfl

theorem mem_literals {front text : Text} {rest : List Token} :
    text ∈ (Regex.concat ((front.map Token.literal ++ rest).map fun token => token.node.1)).language ↔
      ∃ more ∈ (Regex.concat (rest.map fun token => token.node.1)).language, text = front ++ more := by
  induction front generalizing text with
  | nil =>
      constructor
      · exact fun member => ⟨text, member, rfl⟩
      · rintro ⟨more, member, rfl⟩
        exact member
  | cons char front induction =>
      rw [List.map_cons, List.cons_append, List.map_cons, Regex.mem_concat_cons]
      constructor
      · rintro ⟨left, ⟨other, same, rfl⟩, right, member, rfl⟩
        obtain ⟨more, known, rfl⟩ := induction.mp member
        rw [CharSet.contains_single] at same
        exact ⟨more, known, by rw [same]; rfl⟩
      · rintro ⟨more, known, rfl⟩
        exact ⟨[char], ⟨char, (CharSet.contains_single char char).mpr rfl, rfl⟩, front ++ more,
          induction.mpr ⟨more, known, rfl⟩, rfl⟩

def Token.stays : Token → Bool
  | star | one => true
  | literal char => char != '/'
  | _ => false

theorem slashless_bare {text : Text} (member : text ∈ slashless.language) : '/' ∉ text := by
  obtain ⟨char, other, rfl⟩ := member
  rw [List.mem_singleton]
  rintro rfl
  revert other
  decide

theorem star_bare {text : Text} (member : text ∈ (Regex.star slashless).language) : '/' ∉ text := by
  obtain ⟨pieces, rfl, each⟩ := Language.mem_kstar.mp member
  intro inside
  obtain ⟨piece, known, there⟩ := List.mem_flatten.mp inside
  exact slashless_bare (each piece known) there

theorem stays_bare {tokens : List Token} (stays : ∀ token ∈ tokens, token.stays = true) {text : Text}
    (member : text ∈ (Regex.concat (tokens.map fun token => token.node.1)).language) :
    '/' ∉ text := by
  induction tokens generalizing text with
  | nil =>
      rw [show text = [] from member]
      exact List.not_mem_nil
  | cons token rest induction =>
      rw [List.forall_mem_cons] at stays
      obtain ⟨left, here, right, later, rfl⟩ := Regex.mem_concat_cons.mp member
      rw [List.mem_append, not_or]
      refine ⟨?_, induction stays.2 later⟩
      cases token with
      | star => exact star_bare here
      | one => exact slashless_bare here
      | literal char =>
          obtain ⟨other, same, rfl⟩ := here
          rw [(CharSet.contains_single char other).mp same, List.mem_singleton]
          have apart : char ≠ '/' := by simpa [Token.stays] using stays.1
          exact Ne.symm apart
      | deep => cases stays.1
      | any => cases stays.1
      | group body => cases stays.1

theorem scan_stays {part : Text} (bare : '[' ∉ part) (single : '/' ∉ part)
    (shallow : doubleStar part = false) : ∀ token ∈ scan 0 part, token.stays = true := by
  induction part with
  | nil => simp [scan]
  | cons char rest induction =>
      rw [List.mem_cons, not_or] at bare single
      have below : doubleStar rest = false := by
        rw [doubleStar.eq_def] at shallow
        split at shallow
        · cases shallow
        · next same => cases same; exact shallow
        · next same => cases same
      have later := induction bare.2 single.2 below
      have alone : ¬(char = '*' ∧ rest.head? = some '*') := by
        rintro ⟨rfl, second⟩
        cases rest with
        | nil => cases second
        | cons other more =>
            cases second
            cases shallow
      rw [scan, if_neg, if_neg alone]
      · split_ifs
        · exact List.forall_mem_cons.mpr ⟨rfl, later⟩
        · exact List.forall_mem_cons.mpr ⟨rfl, later⟩
        · exact absurd ‹char = '['› (Ne.symm bare.1)
        · exact absurd ‹char = '['› (Ne.symm bare.1)
        · refine List.forall_mem_cons.mpr ⟨?_, later⟩
          simpa [Token.stays] using Ne.symm single.1
      · rintro ⟨star, both⟩
        apply alone
        cases rest with
        | nil => cases both
        | cons other more => exact ⟨star, congrArg some (List.cons.inj both).1⟩

/-- A server that answers every listing by the path it names: with the entries of the
directory that stands there, or with an error. -/
structure Answers (lists : Lists) (forest : Forest Text) : Prop where
  names : ∀ stat target route here, forest.find route = some here →
    (splitCgi target).1 = render [slash] route →
    ∃ entries, lists stat target = some entries ∧ entries.map DirEntry.name = here.names
  kinds : ∀ target route here entries, forest.find route = some here →
    (splitCgi target).1 = render [slash] route → lists true target = some entries →
    entries.map (fun entry => (entry.name, entry.isDirectory)) = here.listing
  absent : ∀ stat target route, (∀ name ∈ route, Proper name) → forest.find route = none →
    (splitCgi target).1 = render [slash] route → lists stat target = none

theorem names_split (forest : Forest Text) :
    (forest.dirs.map Prod.fst ++ forest.files).Perm forest.names := by
  induction forest with
  | nil => exact List.Perm.refl _
  | file first rest induction => exact List.perm_middle.trans (induction.cons first)
  | dir first below rest _ induction => exact induction.cons first

theorem fulls_perm (base : Text) (here : Forest Text) :
    (fulls ⟨base, here.dirs.map Prod.fst, here.files⟩).Perm
      (here.names.map fun name => join base name) :=
  ((List.mergeSort_perm _ _).trans (names_split here)).map _

section Below

variable {fs : FileSystem} {lists : Lists} {forest : Forest Text} (answers : Answers lists forest)
  {here : Forest Text}
include answers

theorem walk_absent {names : List Text} {top tail : Text} (placed : Placed [slash] names top tail)
    (missing : forest.find names = none) (fuel : Nat) : walk fs lists (fuel + 1) top = [] := by
  obtain ⟨_, root⟩ := @Placed.abs fs _ _ _ _ placed
  obtain ⟨_, target⟩ := @Placed.abs fs _ _ _ _ root
  have none := answers.absent true (fs.abs (fs.abs top)) names
    (fun name member => (placed.plain name member).1) missing (by rw [target.split])
  rw [walk, Client.walk]
  dsimp only
  rw [none]

/-- What a directory that is there is walked to: its own entries, then what is below. -/
theorem walk_here {names route : List Text} {top tail : Text} (placed : Placed [slash] names top tail)
    (found : forest.find names = some here) (fuel : Nat) :
    ∃ tail, Placed [slash] names (fs.abs top) tail ∧
      Client.walk fs (fun _ root => lists true (fs.abs root)) true (fuel + 1) route top =
        ⟨render [slash] names, here.dirs.map Prod.fst, here.files⟩ ::
          (here.dirs.map Prod.fst).flatMap fun name =>
            Client.walk fs (fun _ root => lists true (fs.abs root)) true fuel (route ++ [name])
              (join (render [slash] names) name ++ tail) := by
  obtain ⟨tail, root⟩ := @Placed.abs fs _ _ _ _ placed
  obtain ⟨_, target⟩ := @Placed.abs fs _ _ _ _ root
  have named : (splitCgi (fs.abs (fs.abs top))).1 = render [slash] names := by rw [target.split]
  obtain ⟨entries, answer, -⟩ := answers.names true _ names here found named
  have kinds := answers.kinds _ names here entries found named answer
  have dirs : (entries.filter fun entry => entry.isDirectory).map DirEntry.name =
      here.dirs.map Prod.fst := by
    rw [← Forest.listing_dirs, ← kinds, List.filter_map, List.map_map]
    rfl
  have files : (entries.filter fun entry => !entry.isDirectory).map DirEntry.name = here.files := by
    rw [← Forest.listing_files, ← kinds, List.filter_map, List.map_map]
    rfl
  refine ⟨tail, root, ?_⟩
  rw [Client.walk]
  dsimp only
  rw [answer, root.split]
  dsimp only
  rw [dirs, files]
  rfl

/-- Below the directories of a listing, with the listing itself, every member is found
once. -/
theorem below_members {names route : List Text} {tail : Text} (plain : ∀ name ∈ names, Plain name)
    (marked : tail = [] ∨ tail.head? = some '?') (all : here.All Plain) (distinct : here.Distinct)
    (found : ∀ entry ∈ here.dirs, forest.find (names ++ [entry.1]) = some entry.2)
    {fuel : Nat} (enough : here.height ≤ fuel) :
    (((here.dirs.map Prod.fst).flatMap fun name =>
        Client.walk fs (fun _ root => lists true (fs.abs root)) true fuel (route ++ [name])
          (join (render [slash] names) name ++ tail)).flatMap fulls ++
      here.names.map fun name => join (render [slash] names) name).Perm
      (here.members.map fun member => render [slash] (names ++ member.1)) := by
  induction here generalizing names route tail fuel with
  | nil => exact List.Perm.refl _
  | file first rest induction =>
      have later := @induction names route tail plain marked all.2 distinct.2 found fuel enough
      have here := join_render (.inl rfl) (fun name member => (plain name member).1) all.1.1
      rw [Forest.members, List.map_cons, ← here]
      exact List.perm_middle.trans (later.cons _)
  | dir first inner rest deeper induction =>
      have here := join_render (.inl rfl) (fun name member => (plain name member).1) all.1.1
      obtain ⟨fuel, rfl⟩ : ∃ less, fuel = less + 1 :=
        ⟨fuel - 1, by rw [Forest.height] at enough; omega⟩
      have low : inner.height ≤ fuel ∧ rest.height ≤ fuel + 1 := by
        rw [Forest.height] at enough
        omega
      have later := @induction names route tail plain marked all.2.2 distinct.2.2
        (fun entry member => found entry (List.mem_cons_of_mem _ member)) (fuel + 1) low.2
      have placed : Placed [slash] names (render [slash] names ++ tail) tail :=
        ⟨.inl rfl, plain, rfl, marked⟩
      have further := placed.join all.1
      have known : forest.find (names ++ [first]) = some inner :=
        found (first, inner) List.mem_cons_self
      obtain ⟨behind, root, walked⟩ := @walk_here fs _ _ answers _ _ (route ++ [first]) _ _
        further known fuel
      have inside := @deeper (names ++ [first]) (route ++ [first]) behind further.plain root.marked
        all.2.1 distinct.2.1 (fun entry member => Forest.find_dir known distinct.2.1 member) fuel low.1
      have own := (fulls_perm (render [slash] (names ++ [first])) inner).append_right
        ((((inner.dirs.map Prod.fst).flatMap fun name =>
          Client.walk fs (fun _ root => lists true (fs.abs root)) true fuel
            (route ++ [first] ++ [name])
            (join (render [slash] (names ++ [first])) name ++ behind)).flatMap fulls))
      have whole := (own.trans List.perm_append_comm).trans inside
      rw [Forest.members, List.cons_append, List.map_cons, List.map_append, List.map_map, ← here]
      rw [Forest.dirs, List.map_cons, List.flatMap_cons, walked, List.flatMap_append,
        List.flatMap_cons]
      refine List.perm_middle.trans (List.Perm.cons _ ?_)
      rw [List.append_assoc]
      refine List.Perm.append ?_ later
      have shift : (fun member : List Text × Bool =>
          render [slash] (names ++ [first] ++ member.1)) =
          (fun member : List Text × Bool => render [slash] (names ++ member.1)) ∘
            fun member => (first :: member.1, member.2) := by
        funext member
        simp
      rw [shift] at whole
      exact whole

theorem walk_members {names : List Text} {top tail : Text} (placed : Placed [slash] names top tail)
    (found : forest.find names = some here) (all : here.All Plain) (distinct : here.Distinct)
    {fuel : Nat} (enough : here.height < fuel) :
    ((walk fs lists fuel top).flatMap fulls).Perm
      (here.members.map fun member => render [slash] (names ++ member.1)) := by
  obtain ⟨fuel, rfl⟩ : ∃ less, fuel = less + 1 := ⟨fuel - 1, by omega⟩
  obtain ⟨tail, root, walked⟩ := @walk_here fs _ _ answers _ _ [] _ _ placed found fuel
  rw [walk, walked, List.flatMap_cons]
  have below := @below_members fs _ _ answers here names [] tail placed.plain root.marked all distinct
    (fun entry member => Forest.find_dir found distinct member) fuel (Nat.le_of_lt_succ enough)
  exact (((fulls_perm _ here).append_right _).trans List.perm_append_comm).trans below

end Below

section Prefixes

variable {names comps : List Text}

theorem split_render (proper : ∀ name ∈ comps, Proper name) (some : comps ≠ []) :
    (render [slash] comps).splitOn slash = [] :: comps := by
  have whole : render [slash] comps = [] ++ slash :: [slash].intercalate comps := rfl
  rw [whole, List.splitOn_append_cons_self,
    List.splitOn_intercalate slash (fun part member => (proper part member).single) some]
  rfl

def literal (part : Text) : Bool := !part.any fun char => char ∈ magic

def kept (comps : List Text) : List Text := comps.dropLast.takeWhile literal

theorem literal_prefix_render (proper : ∀ name ∈ comps, Proper name) :
    literalPrefix (render [slash] comps) = render [slash] (kept comps) := by
  have blank : literal [] = true := rfl
  have start : ((render [slash] comps).splitOn slash).dropLast.takeWhile literal =
      [] :: kept comps := by
    by_cases none : comps = []
    · rw [none]
      rfl
    · rw [split_render proper none, kept]
      obtain ⟨first, rest, rfl⟩ := List.exists_cons_of_ne_nil none
      rw [List.dropLast_cons_cons, List.takeWhile_cons_of_pos blank]
  change (if [slash].intercalate (((render [slash] comps).splitOn slash).dropLast.takeWhile literal) =
    [] then [slash] else
      [slash].intercalate (((render [slash] comps).splitOn slash).dropLast.takeWhile literal)) = _
  rw [start]
  by_cases none : kept comps = []
  · rw [none]
    rfl
  · rw [List.intercalate_cons_of_ne_nil none]
    rfl

theorem dirname_render {last : Text} (proper : ∀ name ∈ names ++ [last], Proper name) :
    dirname (render [slash] (names ++ [last])) = render [slash] names ∧
      basename (render [slash] (names ++ [last])) = last := by
  have known := proper last (by simp)
  have early : ∀ name ∈ names, Proper name := fun name member => proper name (by simp [member])
  obtain ⟨front, shape, folded⟩ : ∃ front, render [slash] (names ++ [last]) = front ++ slash :: last ∧
      (if (front ++ [slash]).all (· = slash) then front ++ [slash] else rstrip (front ++ [slash])) =
        render [slash] names := by
    by_cases none : names = []
    · subst none
      exact ⟨[], by simp [render], rfl⟩
    · refine ⟨render [slash] names, by rw [render, intercalate_concat none, render]; simp, ?_⟩
      obtain ⟨rest, char, ends, other⟩ := intercalate_last early none
      rw [if_neg, Client.rstrip_slash, Client.rstrip_render early, if_neg none]
      rw [render, ends]
      simp [other]
  have bare : ∀ char ∈ last.reverse, decide (char ≠ slash) = true := fun char member =>
    decide_eq_true fun same => known.single (same ▸ List.mem_reverse.mp member)
  have turned : (front ++ slash :: last).reverse = last.reverse ++ slash :: front.reverse := by simp
  rw [shape]
  constructor
  · rw [dirname, turned, List.dropWhile_append_of_pos bare]
    simpa using folded
  · rw [basename, turned, List.takeWhile_append_of_pos bare]
    simp

/-- A pattern up to its first wildcard, with the slash behind it. -/
def front (comps : List Text) : Text :=
  if kept comps = [] then [slash] else render [slash] (kept comps) ++ [slash]

theorem pattern_split (comps : List Text) :
    ∃ rest, comps = kept comps ++ rest ∧
      render [slash] comps = front comps ++ [slash].intercalate rest ∧
      (kept comps = comps.dropLast → rest = [] ∧ comps = [] ∨ ∃ last, rest = [last]) := by
  have leading : kept comps <+: comps :=
    (List.takeWhile_prefix _).trans (List.dropLast_prefix comps)
  obtain ⟨rest, whole⟩ := leading
  refine ⟨rest, whole.symm, ?_, ?_⟩
  · unfold front
    by_cases none : kept comps = []
    · rw [if_pos none]
      rw [none, List.nil_append] at whole
      rw [whole]
      rfl
    · have some : rest ≠ [] := by
        intro nothing
        have short : (comps.dropLast.takeWhile literal).length ≤ comps.dropLast.length :=
          (List.takeWhile_prefix literal).length_le
        rw [nothing, List.append_nil] at whole
        rw [← kept, whole, List.length_dropLast] at short
        have long : comps.length ≠ 0 := fun zero => none (whole.trans (List.eq_nil_of_length_eq_zero zero))
        omega
      rw [if_neg none]
      nth_rewrite 1 [← whole]
      rw [render, render, Client.intercalate_append none some]
      simp
  · intro all
    by_cases none : comps = []
    · subst none
      exact .inl ⟨(List.append_eq_nil_iff.mp whole).2, rfl⟩
    · refine .inr ⟨comps.getLast none, ?_⟩
      have ends := List.dropLast_append_getLast none
      rw [all] at whole
      exact List.append_cancel_left (whole.trans ends.symm)

theorem front_plain (comps : List Text) : ∀ char ∈ front comps, char ∉ magic := by
  have slashed : slash ∉ magic := by decide
  have each : ∀ part ∈ kept comps, ∀ char ∈ part, char ∉ magic := by
    intro part member
    have known := List.mem_takeWhile_imp member
    simpa [literal] using known
  have joined : ∀ char ∈ [slash].intercalate (kept comps), char ∉ magic := by
    generalize kept comps = parts at each
    induction parts with
    | nil => simp
    | cons part rest induction =>
        rw [List.forall_mem_cons] at each
        cases rest with
        | nil => simpa using each.1
        | cons second others =>
            rw [List.intercalate_cons_of_ne_nil (List.cons_ne_nil _ _)]
            intro char member
            rcases List.mem_append.mp member with early | late
            · rcases List.mem_append.mp early with here | mark
              · exact each.1 char here
              · exact List.mem_singleton.mp mark ▸ slashed
            · exact induction each.2 char late
  unfold front
  split_ifs
  · exact fun char member => List.mem_singleton.mp member ▸ slashed
  · intro char member
    rcases List.mem_append.mp member with early | last
    · rcases List.mem_append.mp early with mark | inside
      · exact List.mem_singleton.mp mark ▸ slashed
      · exact joined char inside
    · exact List.mem_singleton.mp last ▸ slashed

theorem route_below {route : List Text} {more : Text} (proper : ∀ name ∈ route, Proper name)
    (keeps : ∀ name ∈ kept comps, Proper name) (some : route ≠ [])
    (shape : render [slash] route = front comps ++ more) :
    ∃ rest, rest ≠ [] ∧ route = kept comps ++ rest ∧ more.splitOn slash = rest := by
  have cut := List.splitOn_intercalate slash (fun part member => (proper part member).single) some
  refine ⟨more.splitOn slash, List.splitOn_ne_nil _ _, ?_, rfl⟩
  unfold front at shape
  by_cases none : kept comps = []
  · rw [if_pos none] at shape
    have same : [slash].intercalate route = more := (List.cons.inj shape).2
    rw [none, List.nil_append, ← same, cut]
  · rw [if_neg none, render, render, List.append_assoc, List.append_assoc] at shape
    have same := List.append_cancel_left shape
    rw [same, List.singleton_append, List.splitOn_append_cons_self,
      List.splitOn_intercalate slash (fun part member => (keeps part member).single) none] at cut
    exact cut.symm

end Prefixes

/-- Each path of a namespace, but for its root, that a pattern matches whole, once; and an
error only for a directory that is not there. -/
structure Exactly (forest : Forest Text) (pattern : Text) (outcome : Outcome) : Prop where
  once : outcome.yielded.Nodup
  each : ∀ path, path ∈ outcome.yielded ↔
    (∃ member ∈ forest.members, path = render [slash] member.1) ∧
      fullmatch (globRegex pattern) path = some true
  raised : outcome.raised = true → ∃ route, dirname pattern = render [slash] route ∧
    forest.find route = none

section Exact

variable {fs : FileSystem} {lists : Lists} {forest : Forest Text} {comps : List Text}
  (answers : Answers lists forest) (all : forest.All Plain) (distinct : forest.Distinct)
  (proper : ∀ name ∈ comps, Proper name) (bare : '[' ∉ render [slash] comps)

def items (comps : List Text) : List Regex :=
  (scan 0 (render [slash] comps)).map fun token => token.node.1

include bare

theorem items_compile : Pattern.compile (globRegex (render [slash] comps)) = some (items comps) :=
  tokens_compile (scan_single bare 0)

theorem full_iff (path : Text) : fullmatch (globRegex (render [slash] comps)) path = some true ↔
    (Regex.concat (items comps)).accepts path = true := by
  rw [fullmatch, items_compile bare, Option.map_some, Option.some.injEq]

include all distinct proper

omit bare in
theorem matched_below {route : List Text} {kind : Bool} (member : (route, kind) ∈ forest.members)
    (accepted : (Regex.concat (items comps)).accepts (render [slash] route) = true) :
    ∃ here more, forest.find (kept comps) = some here ∧ (more, kind) ∈ here.members ∧
      route = kept comps ++ more ∧ ∃ rest text, comps = kept comps ++ rest ∧
        (kept comps = comps.dropLast → rest = [] ∧ comps = [] ∨ ∃ last, rest = [last]) ∧
        text.splitOn slash = more ∧
        text ∈ (Regex.concat ((scan 0 ([slash].intercalate rest)).map
          fun token => token.node.1)).language := by
  obtain ⟨rest, whole, shape, single⟩ := pattern_split comps
  have keeps : ∀ name ∈ kept comps, Proper name := fun name known =>
    proper name (whole ▸ List.mem_append_left _ known)
  have names : ∀ name ∈ route, Proper name := fun name known =>
    (Forest.member_all all member name known).1
  have some : route ≠ [] := by
    obtain ⟨_, _, first, -⟩ := Forest.member_head member
    rw [first]
    exact List.cons_ne_nil _ _
  rw [Regex.accepts_iff, items, shape, scan_plain (front_plain comps), mem_literals] at accepted
  obtain ⟨text, known, begins⟩ := accepted
  obtain ⟨more, further, below, cut⟩ := route_below names keeps some begins
  rw [below] at member
  obtain ⟨here, found, there⟩ := Forest.member_find distinct further member
  exact ⟨here, more, found, there, below, rest, text, whole, single, cut, known⟩

omit distinct all proper bare in
theorem render_injective {first second : List Text} (one : ∀ name ∈ first, Proper name)
    (two : ∀ name ∈ second, Proper name) (same : render [slash] first = render [slash] second) :
    first = second := by
  have parts := congrArg (parts true) same
  rwa [parts_render true (.inl rfl) one, parts_render true (.inl rfl) two] at parts

omit all distinct bare in
theorem kept_dirname (only : literalPrefix (render [slash] comps) = dirname (render [slash] comps)) :
    kept comps = comps.dropLast := by
  rcases List.eq_nil_or_concat comps with none | ⟨names, last, shape⟩
  · rw [none]
    rfl
  · rw [List.concat_eq_append] at shape
    subst shape
    rw [literal_prefix_render proper, (dirname_render proper).1] at only
    have early : ∀ name ∈ names, Proper name := fun name member => proper name (by simp [member])
    have keeps : ∀ name ∈ kept (names ++ [last]), Proper name := by
      intro name member
      have known := (List.takeWhile_prefix literal).subset member
      rw [List.dropLast_concat] at known
      exact early name known
    rw [List.dropLast_concat]
    exact render_injective keeps early only

theorem matched_listed (only : literalPrefix (render [slash] comps) = dirname (render [slash] comps))
    (shallow : doubleStar (basename (render [slash] comps)) = false) {route : List Text} {kind : Bool}
    (member : (route, kind) ∈ forest.members)
    (accepted : (Regex.concat (items comps)).accepts (render [slash] route) = true) :
    ∃ here name, forest.find (kept comps) = some here ∧ name ∈ here.names ∧
      route = kept comps ++ [name] := by
  obtain ⟨here, more, found, there, below, rest, text, whole, single, cut, known⟩ :=
    matched_below all distinct proper member accepted
  have stays : ∀ token ∈ scan 0 ([slash].intercalate rest), token.stays = true := by
    rcases single (kept_dirname proper only) with ⟨rfl, -⟩ | ⟨last, rfl⟩
    · simp [scan]
    · rw [whole] at proper bare shallow
      have inside : last ∈ kept comps ++ [last] := by simp
      rw [(dirname_render proper).2] at shallow
      have one : [slash].intercalate [last] = last := by simp
      rw [one]
      apply scan_stays _ (proper last inside).single shallow
      intro bracket
      apply bare
      rw [render, List.mem_append]
      right
      by_cases none : kept comps = []
      · rw [none]
        simpa using bracket
      · rw [intercalate_concat none]
        simp [bracket]
  have flat : slash ∉ text := stays_bare stays known
  have alone : more = [text] := by
    rw [← cut]
    have only := List.splitOn_intercalate slash (fun part member => List.mem_singleton.mp member ▸ flat)
      (List.cons_ne_nil text [])
    simpa using only
  rw [alone] at there below
  refine ⟨here, text, found, ?_, below⟩
  rcases Forest.member_cases there with ⟨name, same, listed⟩ | ⟨_, _, rest, same, -, inside⟩
  · cases same
    exact List.mem_map.mpr ⟨_, listed, rfl⟩
  · cases same
    obtain ⟨_, _, impossible, -⟩ := Forest.member_head inside
    cases impossible

omit all distinct bare in
theorem kept_plain : ∀ name ∈ kept comps, Plain name := by
  intro name member
  have known := (List.takeWhile_prefix literal).subset member
  have free := List.mem_takeWhile_imp member
  refine ⟨proper name (List.dropLast_subset _ known), fun marked => ?_⟩
  have clean : ∀ char ∈ name, char ∉ magic := by simpa [literal] using free
  exact clean '?' marked (by decide)

/-- The paths that are yielded, where they are those of the members below what was kept
that are matched. -/
theorem yielded_exact {found : List Text} {raised : Bool} {here : Forest Text}
    (there : forest.find (kept comps) = some here) {members : List (List Text)}
    (paths : found.Perm (members.map fun route => render [slash] (kept comps ++ route)))
    (inside : ∀ route ∈ members, ∃ kind, (route, kind) ∈ here.members) (unique : members.Nodup)
    (every : ∀ route kind, (kept comps ++ route, kind) ∈ forest.members →
      (Regex.concat (items comps)).accepts (render [slash] (kept comps ++ route)) = true →
      route ∈ members) (quiet : raised = false) :
    Exactly forest (render [slash] comps)
      ⟨found.filter fun full => (Regex.concat (items comps)).accepts full, raised⟩ := by
  have listed : ∀ route ∈ members, ∃ kind, (kept comps ++ route, kind) ∈ forest.members := by
    intro route member
    obtain ⟨kind, known⟩ := inside route member
    exact ⟨kind, Forest.find_member there known⟩
  constructor
  · apply List.Nodup.filter
    rw [paths.nodup_iff]
    apply List.Nodup.map_on _ unique
    intro first one second two same
    obtain ⟨_, early⟩ := listed first one
    obtain ⟨_, late⟩ := listed second two
    exact List.append_cancel_left (render_injective
      (fun name known => (Forest.member_all all early name known).1)
      (fun name known => (Forest.member_all all late name known).1) same)
  · intro path
    rw [List.mem_filter, paths.mem_iff, List.mem_map, full_iff bare]
    constructor
    · rintro ⟨⟨route, member, rfl⟩, accepted⟩
      obtain ⟨kind, known⟩ := listed route member
      exact ⟨⟨_, known, rfl⟩, accepted⟩
    · rintro ⟨⟨⟨route, kind⟩, member, rfl⟩, accepted⟩
      obtain ⟨_, more, _, _, below, _⟩ := matched_below all distinct proper member accepted
      dsimp only at accepted ⊢
      rw [below] at member accepted ⊢
      exact ⟨⟨more, every more kind member accepted, rfl⟩, accepted⟩
  · intro loud
    rw [quiet] at loud
    cases loud

theorem nothing_exact {raised : Bool} (missing : forest.find (kept comps) = none)
    (loud : raised = true → dirname (render [slash] comps) = render [slash] (kept comps)) :
    Exactly forest (render [slash] comps) ⟨[], raised⟩ := by
  constructor
  · exact List.nodup_nil
  · intro path
    rw [full_iff bare]
    constructor
    · exact fun member => absurd member List.not_mem_nil
    · rintro ⟨⟨⟨route, kind⟩, member, rfl⟩, accepted⟩
      obtain ⟨_, _, found, _⟩ := matched_below all distinct proper member accepted
      rw [missing] at found
      cases found
  · exact fun raised => ⟨_, loud raised, missing⟩

include answers

/-- A glob yields every path that its pattern matches, each once, and nothing else. -/
theorem glob_exact (root : Text) {fuel : Nat} (enough : forest.height < fuel) :
    Exactly forest (render [slash] comps) (glob fs lists fuel (render [slash] comps) root) := by
  obtain ⟨_, _, cgi, resolved⟩ := Client.abs_placed fs (if root = [] then [slash] else root)
  have placed : Placed [slash] (kept comps) (render [slash] (kept comps) ++ cgi) cgi :=
    ⟨.inl rfl, kept_plain proper, rfl, resolved.marked⟩
  obtain ⟨_, target⟩ := @Placed.abs fs _ _ _ _ placed
  have named : (splitCgi (fs.abs (render [slash] (kept comps) ++ cgi))).1 =
      render [slash] (kept comps) := by rw [target.split]
  have keeps : ∀ name ∈ kept comps, Proper name := fun name member =>
    (kept_plain proper name member).1
  unfold glob
  rw [resolved.split]
  dsimp only
  rw [if_pos (Client.render_head (.inl rfl)), items_compile bare]
  dsimp only
  rw [literal_prefix_render proper]
  split_ifs with shortcut
  · have only : literalPrefix (render [slash] comps) = dirname (render [slash] comps) := by
      rw [literal_prefix_render proper]
      exact shortcut.2
    cases found : forest.find (kept comps) with
    | none =>
        rw [answers.absent false _ _ keeps found named]
        exact nothing_exact all distinct proper bare found fun _ => shortcut.2.symm
    | some here =>
        obtain ⟨entries, answer, names⟩ := answers.names false _ _ here found named
        obtain ⟨single, plain, -⟩ := Forest.find_inherits found distinct all
        rw [answer]
        dsimp only
        have paths : (entries.map fun entry => join (render [slash] (kept comps)) entry.name) =
            (here.names.map fun name => [name]).map fun route =>
              render [slash] (kept comps ++ route) := by
          rw [← names, List.map_map, List.map_map]
          apply List.map_congr_left
          intro entry member
          have known : entry.name ∈ here.names := by
            rw [← names]
            exact List.mem_map_of_mem member
          exact join_render (.inl rfl) keeps (Forest.names_all plain _ known).1
        rw [paths]
        apply yielded_exact all distinct proper bare found (List.Perm.refl _)
        · intro route member
          obtain ⟨name, listed, rfl⟩ := List.mem_map.mp member
          obtain ⟨entry, known, rfl⟩ := List.mem_map.mp listed
          exact ⟨entry.2, Forest.listing_member known⟩
        · exact (List.nodup_map_iff (fun _ _ same => (List.cons.inj same).1)).mpr
            (Forest.names_nodup single)
        · intro route kind member accepted
          obtain ⟨there, name, same, listed, below⟩ :=
            matched_listed all distinct proper bare only shortcut.1 member accepted
          rw [found] at same
          cases same
          rw [List.append_cancel_left below]
          exact List.mem_map_of_mem listed
        · rfl
  · cases found : forest.find (kept comps) with
    | none =>
        obtain ⟨fuel, rfl⟩ : ∃ less, fuel = less + 1 := ⟨fuel - 1, by omega⟩
        rw [walk_absent answers placed found]
        exact nothing_exact all distinct proper bare found nofun
    | some here =>
        obtain ⟨single, plain, low⟩ := Forest.find_inherits found distinct all
        have paths := @walk_members fs _ _ answers _ _ _ _ placed found plain single fuel
          (Nat.lt_of_le_of_lt low enough)
        have routes : (here.members.map fun member => render [slash] (kept comps ++ member.1)) =
            (here.members.map Prod.fst).map fun route => render [slash] (kept comps ++ route) := by
          rw [List.map_map]
          rfl
        rw [routes] at paths
        apply yielded_exact all distinct proper bare found paths
        · intro route member
          obtain ⟨entry, known, rfl⟩ := List.mem_map.mp member
          exact ⟨entry.2, known⟩
        · exact Forest.routes_nodup single
        · intro route kind member accepted
          obtain ⟨there, more, same, known, below, -⟩ :=
            matched_below all distinct proper member accepted
          rw [found] at same
          cases same
          rw [List.append_cancel_left below]
          exact List.mem_map.mpr ⟨_, known, rfl⟩
        · rfl

end Exact

def tokened : FileSystem where
  path := str "/store"
  rooted := rfl
  bare := by decide
  data := Client.rootOpaque fun _ => str "authz=T"

def nestedLists : Lists := fun _ target =>
  if (splitCgi target).1 = str "/" then some [{ name := str "d", stat := some { flags := 2 } }]
  else if (splitCgi target).1 = str "/d" then some [{ name := str "f", stat := some {} }]
  else none

theorem nested_answers : Answers nestedLists (.holding (str "d") (str "f")) := by
  have places : ∀ route here, (Forest.holding (str "d") (str "f")).find route = some here →
      render [slash] route = str "/" ∧ here = .holding (str "d") (str "f") ∨
      render [slash] route = str "/d" ∧ here = .file (str "f") .nil := by
    intro route here found
    rw [Forest.find_holding] at found
    split_ifs at found with top below
    · cases found
      rw [top]
      exact .inl ⟨rfl, rfl⟩
    · cases found
      rw [below]
      exact .inr ⟨rfl, rfl⟩
  constructor
  · intro stat target route here found named
    rcases places route here found with ⟨same, rfl⟩ | ⟨same, rfl⟩
    · exact ⟨_, if_pos (named.trans same), by decide⟩
    · refine ⟨_, (if_neg ?_).trans (if_pos (named.trans same)), by decide⟩
      rw [named, same]
      decide
  · intro target route here entries found named answer
    rcases places route here found with ⟨same, rfl⟩ | ⟨same, rfl⟩
    · rw [nestedLists, if_pos (named.trans same)] at answer
      cases answer
      decide
    · rw [nestedLists, if_neg, if_pos (named.trans same)] at answer
      · cases answer
        decide
      · rw [named, same]
        decide
  · intro stat target route proper missing named
    have top : render [slash] route ≠ str "/" := by
      intro same
      have root : route = [] := render_injective proper (fun _ none => absurd none List.not_mem_nil) same
      rw [root] at missing
      cases missing
    have below : render [slash] route ≠ str "/d" := by
      intro same
      have only : ∀ name ∈ [str "d"], Proper name := by decide
      have one : route = [str "d"] := render_injective proper only same
      rw [one] at missing
      cases missing
    rw [nestedLists, named, if_neg top, if_neg below]

theorem nested_globbed :
    Exactly (.holding (str "d") (str "f")) (str "/**/*") (glob tokened nestedLists 2 (str "/**/*") []) ∧
      (glob tokened nestedLists 2 (str "/**/*") []).yielded = [str "/d", str "/d/f"] :=
  ⟨@glob_exact tokened nestedLists (.holding (str "d") (str "f")) [str "**", str "*"] nested_answers
    ⟨⟨by decide, by decide⟩, ⟨⟨by decide, by decide⟩, trivial⟩, trivial⟩ (by decide) (by decide)
    (by decide) [] 2 (by decide), by decide +kernel⟩

end XRootDClient.Glob
