import Mathlib.Data.List.Count
import XRootDClient.Client.Opaque
import XRootDClient.Lib.Forest

/-!
# Removing a tree

`FileSystem.rmtree` with every request it makes, against a server that may remember
them all. A visit of the bottom-up walk is handled where it is yielded, before the walk
goes on. A name is joined to its directory, given the opaque data, and cut at the first
question mark again on each descent, so that a name with a question mark in it is never
the one a request names.
-/

set_option autoImplicit false

namespace XRootDClient.Rmtree

open Lib Lib.Posix Url
open Client (DirEntry Visit splitCgi Plain)

inductive Request where
  | dirlist (target : Text)
  | rm (target : Text)
  | rmdir (target : Text)
  deriving DecidableEq

namespace Request

def target : Request → Text
  | dirlist target | rm target | rmdir target => target

def kind : Request → Option Bool
  | dirlist _ => none
  | rm _ => some false
  | rmdir _ => some true

/-- The path it names; what stands behind a question mark is opaque to the server. -/
def named (request : Request) : Text := (splitCgi request.target).1

def carried (request : Request) : Text := (splitCgi request.target).2

end Request

/-- What was removed, in order: the kind, the path and the opaque data of each. -/
def removals (log : List Request) : List (Bool × Text × Text) :=
  log.filterMap fun request => request.kind.map fun kind => (kind, request.named, request.carried)

/-- What a server answers after the requests it has had: the entries of a listing, or
whether a removal succeeds. The rest is an `OSError`. -/
structure Server where
  lists : List Request → Text → Option (List DirEntry)
  removes : List Request → Request → Bool

/-- A piece of the run: whether it went through, and the requests up to then. -/
abbrev Step := List Request → Bool × List Request

def andThen (first second : Step) : Step := fun log =>
  match first log with
  | (true, log) => second log
  | (false, log) => (false, log)

def each (act : Text → Step) : List Text → Step
  | [] => fun log => (true, log)
  | name :: rest => andThen (act name) (each act rest)

section Model

variable (url : XRootDURL) (server : Server) (ignoreErrors : Bool)

def attempt (request : Request) : Step := fun log =>
  (server.removes log request || ignoreErrors, log ++ [request])

def remove (path : Text) : Step := attempt server ignoreErrors (.rm (url.abs path))

def rmdir (path : Text) : Step := attempt server ignoreErrors (.rmdir (url.abs path))

def orRoot (path : Text) : Text := if path = [] then ['/'] else path

/-- `walk` from the bottom, with what is done at each visit. A listing that raises is
passed over; `scandir` resolves its path once more. -/
def walk (visited : Visit → Step) : Nat → Text → Step
  | 0, _ => fun log => (false, log)
  | fuel + 1, top => fun log =>
      let root := url.abs (orRoot top)
      let target := url.abs (orRoot root)
      match server.lists log target with
      | none => (true, log ++ [.dirlist target])
      | some entries =>
          let (base, cgi) := splitCgi root
          let dirs := (entries.filter fun entry => entry.isDirectory).map DirEntry.name
          let files := (entries.filter fun entry => !entry.isDirectory).map DirEntry.name
          andThen (each (fun name => walk visited fuel (join base name ++ cgi)) dirs)
            (visited ⟨base, dirs, files⟩) (log ++ [.dirlist target])

def clear (cgi : Text) (visit : Visit) : Step :=
  andThen (each (fun name => remove url server ignoreErrors (join visit.dirpath name ++ cgi))
      visit.files)
    (each (fun name => rmdir url server ignoreErrors (join visit.dirpath name ++ cgi)) visit.dirs)

def rmtree (fuel : Nat) (path : Text) : Step :=
  let target := url.abs path
  let cgi := (splitCgi target).2
  andThen (walk url server (clear url server ignoreErrors cgi) fuel target)
    (rmdir url server ignoreErrors target)

end Model

structure Entry (name : Text) : Prop extends Proper name where
  ended : Char.ofNat 0 ∉ name
  lined : '\n' ∉ name

instance (name : Text) : Decidable (Entry name) :=
  decidable_of_iff (Proper name ∧ Char.ofNat 0 ∉ name ∧ '\n' ∉ name)
    ⟨fun ⟨proper, ended, lined⟩ => ⟨proper, ended, lined⟩,
      fun entry => ⟨entry.toProper, entry.ended, entry.lined⟩⟩

def under (top : Text) (route : List Text) : Text := route.foldl join top

def Removed (log : List Request) (place : Text) : Prop :=
  ∃ kind cgi, (kind, place, cgi) ∈ removals log

/-- A server that answers each request for the path it names, as long as the tree is as
it was there. -/
structure Serves (server : Server) (top : Text) (forest : Forest Text) : Prop where
  lists : ∀ log route here target, forest.find route = some here →
    (splitCgi target).1 = under top route → ¬Removed log (under top route) →
    (∀ member ∈ here.members, ¬Removed log (under top (route ++ member.1))) →
    ∃ entries, server.lists log target = some entries ∧
      entries.map (fun entry => (entry.name, entry.isDirectory)) = here.listing
  rm : ∀ log route target, (route, false) ∈ forest.members →
    (splitCgi target).1 = under top route → ¬Removed log (under top route) →
    server.removes log (.rm target) = true
  rmdir : ∀ log route here target, forest.find route = some here →
    (splitCgi target).1 = under top route → ¬Removed log (under top route) →
    (∀ name ∈ here.names, Removed log (under top (route ++ [name]))) →
    server.removes log (.rmdir target) = true

/-- Every entry of a tree is removed once, by its own path and with the opaque data once,
before its parent is; and nothing else is asked for. -/
structure Exact (top cgi : Text) (forest : Forest Text) (outcome : Bool × List Request) : Prop where
  through : outcome.1 = true
  once : (removals outcome.2).Perm
    ((([], true) :: forest.members).map fun member => (member.2, under top member.1, cgi))
  before : ∀ route name kind, (route ++ [name], kind) ∈ forest.members →
    List.Sublist [(kind, under top (route ++ [name]), cgi), (true, under top route, cgi)]
      (removals outcome.2)
  inside : ∀ request ∈ outcome.2, request.carried = cgi ∧
    ∃ member ∈ ([], true) :: forest.members, request.named = under top member.1

/-- A resolved path from the root, and opaque data that `_cgi` has made. -/
structure Ground (url : XRootDURL) (front : Text) (names : List Text) (cgi : Text) : Prop where
  known : Front front
  plain : ∀ name ∈ names, Plain name
  made : ∃ explicit, cgi = Url.cgi explicit url.query

section Ground

variable {url : XRootDURL} {front cgi : Text} {names route : List Text}

def spot (front : Text) (names : List Text) (cgi : Text) (route : List Text) : Text :=
  render front (names ++ route) ++ cgi

theorem under_render (known : Front front) (proper : ∀ name ∈ names ++ route, Proper name) :
    under (render front names) route = render front (names ++ route) := by
  induction route generalizing names with
  | nil => rw [List.append_nil]; rfl
  | cons name route induction =>
      have shift : names ++ name :: route = names ++ [name] ++ route := by simp
      rw [shift] at proper ⊢
      have here : Proper name := proper name (by simp)
      have early : ∀ name ∈ names, Proper name := fun name member => proper name (by simp [member])
      rw [← induction proper, ← join_render known early here]
      rfl

theorem render_inj {first second : List Text} (known : Front front)
    (one : ∀ name ∈ names ++ first, Proper name) (two : ∀ name ∈ names ++ second, Proper name)
    (same : render front (names ++ first) = render front (names ++ second)) : first = second := by
  have parts := congrArg (Posix.parts true) same
  rw [parts_render true known one, parts_render true known two] at parts
  exact List.append_cancel_left parts

variable (ground : Ground url front names cgi) (plain : ∀ name ∈ route, Plain name)
include ground plain

theorem Ground.all : ∀ name ∈ names ++ route, Plain name := fun name member =>
  (List.mem_append.mp member).elim (ground.plain name) (plain name)

theorem Ground.proper : ∀ name ∈ names ++ route, Proper name := fun name member =>
  (ground.all plain name member).1

theorem Ground.under_eq : under (render front names) route = render front (names ++ route) :=
  under_render ground.known (ground.proper plain)

theorem Ground.split : splitCgi (spot front names cgi route) =
    (under (render front names) route, cgi) := by
  obtain ⟨explicit, rfl⟩ := ground.made
  rw [ground.under_eq plain]
  exact split_marked (Client.render_bare ground.known (ground.all plain)) (cgi_marked _ _)

theorem Ground.abs : url.abs (spot front names cgi route) = spot front names cgi route := by
  obtain ⟨explicit, rfl⟩ := ground.made
  have bare := Client.render_bare ground.known (ground.all plain)
  rw [spot, abs_suffixed (Client.render_head ground.known) bare,
    normpath_render ground.known (ground.proper plain)]

theorem Ground.join {name : Text} (next_ : Plain name) :
    Posix.join (under (render front names) route) name ++ cgi =
      spot front names cgi (route ++ [name]) := by
  rw [ground.under_eq plain, join_render ground.known (ground.proper plain) next_.1, spot,
    List.append_assoc]

end Ground

section Trace

variable (place : List Text → Text)

def own (route : List Text) (here : Forest Text) : List Request :=
  here.files.map (fun name => .rm (place (route ++ [name]))) ++
    here.dirs.map fun entry => .rmdir (place (route ++ [entry.1]))

def descend (route : List Text) : Forest Text → List Request
  | .nil => []
  | .file _ rest => descend route rest
  | .dir name below rest =>
      .dirlist (place (route ++ [name])) :: descend (route ++ [name]) below ++
        own place (route ++ [name]) below ++ descend route rest

end Trace

theorem removals_append (first second : List Request) :
    removals (first ++ second) = removals first ++ removals second := List.filterMap_append

theorem removed_append {first second : List Request} {place : Text} :
    Removed (first ++ second) place ↔ Removed first place ∨ Removed second place := by
  unfold Removed
  simp only [removals_append, List.mem_append]
  constructor
  · rintro ⟨kind, cgi, early | late⟩
    · exact .inl ⟨kind, cgi, early⟩
    · exact .inr ⟨kind, cgi, late⟩
  · rintro (⟨kind, cgi, early⟩ | ⟨kind, cgi, late⟩)
    · exact ⟨kind, cgi, .inl early⟩
    · exact ⟨kind, cgi, .inr late⟩

theorem removed_listing (target place : Text) : ¬Removed [.dirlist target] place := by
  rintro ⟨kind, cgi, member⟩
  cases member

theorem route_plain {route : List Text} {name : Text} (plain : ∀ name ∈ route, Plain name)
    (next_ : Plain name) : ∀ other ∈ route ++ [name], Plain other := by
  intro other either
  rcases List.mem_append.mp either with early | last
  · exact plain other early
  · rw [List.mem_singleton.mp last]
    exact next_

theorem deeper_plain {route more : List Text} {name : Text} {here below : Forest Text} {kind : Bool}
    (plain : ∀ name ∈ route, Plain name) (all : here.All Plain) (known : (name, below) ∈ here.dirs)
    (there : (more, kind) ∈ below.members) : ∀ other ∈ route ++ name :: more, Plain other := by
  obtain ⟨first, rest⟩ := Forest.dir_all all known
  intro other either
  rcases List.mem_append.mp either with early | late
  · exact plain other early
  · rcases List.mem_cons.mp late with rfl | last
    · exact first
    · exact Forest.member_all rest there other last

section Removals

variable {url : XRootDURL} {front cgi : Text} {names : List Text}
  (ground : Ground url front names cgi) {route : List Text} {here : Forest Text}
include ground

theorem own_removals (plain : ∀ name ∈ route, Plain name) (all : here.All Plain) :
    removals (own (spot front names cgi) route here) =
      here.files.map (fun name => (false, under (render front names) (route ++ [name]), cgi)) ++
        here.dirs.map fun entry => (true, under (render front names) (route ++ [entry.1]), cgi) := by
  have split : ∀ name ∈ here.names, splitCgi (spot front names cgi (route ++ [name])) =
      (under (render front names) (route ++ [name]), cgi) := by
    intro name member
    exact ground.split (route_plain plain (Forest.names_all all name member))
  rw [own, removals_append, removals, removals, List.filterMap_map, List.filterMap_map]
  apply congrArg₂ _
  · rw [← List.filterMap_eq_map]
    apply List.filterMap_congr
    intro name member
    have named := split name (Forest.mem_names.mpr (.inl member))
    simp only [Function.comp_apply, Request.kind, Request.named, Request.carried, Request.target,
      named, Option.map_some]
  · rw [← List.filterMap_eq_map]
    apply List.filterMap_congr
    intro entry member
    have named := split entry.1
      (Forest.mem_names.mpr (.inr (List.mem_map_of_mem (f := Prod.fst) member)))
    simp only [Function.comp_apply, Request.kind, Request.named, Request.carried, Request.target,
      named, Option.map_some]

theorem mem_own (plain : ∀ name ∈ route, Plain name) (all : here.All Plain) {kind : Bool}
    {place opaque_ : Text} :
    (kind, place, opaque_) ∈ removals (own (spot front names cgi) route here) ↔
      ∃ name, (name, kind) ∈ here.listing ∧
        place = under (render front names) (route ++ [name]) ∧ opaque_ = cgi := by
  rw [own_removals ground plain all, List.mem_append, List.mem_map, List.mem_map]
  constructor
  · rintro (⟨name, member, same⟩ | ⟨entry, member, same⟩)
    · cases same
      exact ⟨name, Forest.mem_listing_file.mpr member, rfl, rfl⟩
    · cases same
      exact ⟨entry.1, Forest.mem_listing_dir.mpr (List.mem_map_of_mem (f := Prod.fst) member),
        rfl, rfl⟩
  · rintro ⟨name, member, rfl, rfl⟩
    cases kind with
    | false => exact .inl ⟨name, Forest.mem_listing_file.mp member, rfl⟩
    | true =>
        obtain ⟨entry, known, rfl⟩ := List.mem_map.mp (Forest.mem_listing_dir.mp member)
        exact .inr ⟨entry, known, rfl⟩

theorem mem_descend (plain : ∀ name ∈ route, Plain name) (all : here.All Plain) {kind : Bool}
    {place opaque_ : Text}
    (member : (kind, place, opaque_) ∈ removals (descend (spot front names cgi) route here)) :
    opaque_ = cgi ∧ ∃ name below more, (name, below) ∈ here.dirs ∧ (more, kind) ∈ below.members ∧
      place = under (render front names) (route ++ name :: more) := by
  induction here generalizing route with
  | nil => cases member
  | file first rest induction => exact induction plain all.2 member
  | dir first inner rest deeper induction =>
      have further := route_plain plain all.1
      rw [descend, List.cons_append, List.cons_append, ← List.singleton_append, removals_append,
        removals_append, removals_append] at member
      rcases List.mem_append.mp member with none | member
      · cases none
      · rcases List.mem_append.mp member with inside | later
        · rcases List.mem_append.mp inside with below | own
          · obtain ⟨same, name, last, more, known, there, shape⟩ :=
              deeper further all.2.1 below
            refine ⟨same, first, inner, name :: more, List.mem_cons_self,
              Forest.dir_member known there, ?_⟩
            rw [shape, List.append_assoc]
            rfl
          · obtain ⟨name, listed, shape, same⟩ := (mem_own ground further all.2.1).mp own
            refine ⟨same, first, inner, [name], List.mem_cons_self,
              Forest.listing_member listed, ?_⟩
            rw [shape, List.append_assoc]
            rfl
        · obtain ⟨same, name, below, more, known, there, shape⟩ :=
            induction plain all.2.2 later
          exact ⟨same, name, below, more, List.mem_cons_of_mem _ known, there, shape⟩

theorem descend_empties (plain : ∀ name ∈ route, Plain name) (all : here.All Plain) {name : Text}
    {below : Forest Text} (known : (name, below) ∈ here.dirs) :
    ∀ entry ∈ below.listing, (entry.2, under (render front names) (route ++ [name] ++ [entry.1]), cgi) ∈
      removals (descend (spot front names cgi) route here) := by
  induction here with
  | nil => cases known
  | file first rest induction => exact induction all.2 known
  | dir first inner rest _ induction =>
      intro entry listed
      rw [descend, List.cons_append, List.cons_append, ← List.singleton_append, removals_append,
        removals_append, removals_append]
      apply List.mem_append_right
      rcases List.mem_cons.mp known with same | later
      · cases same
        apply List.mem_append_left
        apply List.mem_append_right
        exact (mem_own ground (route_plain plain all.1) all.2.1).mpr
          ⟨entry.1, listed, rfl, rfl⟩
      · apply List.mem_append_right
        exact induction all.2.2 later entry listed

theorem descend_once (plain : ∀ name ∈ route, Plain name) (all : here.All Plain) :
    (removals (descend (spot front names cgi) route here ++
      own (spot front names cgi) route here)).Perm
      (here.members.map fun member => (member.2, under (render front names) (route ++ member.1),
        cgi)) := by
  induction here generalizing route with
  | nil => exact List.Perm.refl _
  | file first rest induction =>
      have later := induction plain all.2
      rw [removals_append, own_removals ground plain all.2] at later
      rw [removals_append, own_removals ground plain all]
      simp only [Forest.files, Forest.dirs, Forest.members, descend, List.map_cons,
        List.cons_append]
      exact List.perm_middle.trans (later.cons _)
  | dir first inner rest deeper induction =>
      have later := induction plain all.2.2
      have further := route_plain plain all.1
      have inside := deeper further all.2.1
      rw [removals_append, own_removals ground plain all.2.2] at later
      rw [removals_append, own_removals ground plain all]
      simp only [Forest.files, Forest.dirs, Forest.members, descend, List.map_cons,
        List.cons_append, List.map_append, List.map_map]
      have shift : (fun member : List Text × Bool =>
          (member.2, under (render front names) (route ++ [first] ++ member.1), cgi)) =
          (fun member : List Text × Bool =>
            (member.2, under (render front names) (route ++ member.1), cgi)) ∘
            fun member => (first :: member.1, member.2) := by
        funext member
        simp
      rw [shift] at inside
      have start : removals (.dirlist (spot front names cgi (route ++ [first])) ::
          (descend (spot front names cgi) (route ++ [first]) inner ++
            own (spot front names cgi) (route ++ [first]) inner ++
            descend (spot front names cgi) route rest)) =
          removals (descend (spot front names cgi) (route ++ [first]) inner ++
            own (spot front names cgi) (route ++ [first]) inner) ++
          removals (descend (spot front names cgi) route rest) := removals_append _ _
      rw [start, List.perm_iff_count]
      rw [List.perm_iff_count] at later inside
      intro value
      have one := later value
      have two := inside value
      simp only [List.count_append, List.count_cons] at one two ⊢
      omega

end Removals

section Runs

variable {url : XRootDURL} {server : Server} {ignoreErrors : Bool}

theorem each_attempts {act : Text → Step} {request : Text → Request} {items : List Text}
    (acts : ∀ name ∈ items, act name = attempt server ignoreErrors (request name))
    {log : List Request}
    (succeeds : ∀ done name rest, items = done ++ name :: rest →
      server.removes (log ++ done.map request) (request name) = true) :
    each act items log = (true, log ++ items.map request) := by
  induction items generalizing log with
  | nil => rw [each, List.map_nil, List.append_nil]
  | cons name rest induction =>
      have here : act name log = (true, log ++ [request name]) := by
        have first := succeeds [] name rest rfl
        rw [List.map_nil, List.append_nil] at first
        rw [acts name List.mem_cons_self, attempt, first]
        rfl
      rw [each, andThen, here]
      dsimp only
      rw [induction fun other member => acts other (List.mem_cons_of_mem _ member)]
      · simp
      · intro done other more shape
        have later := succeeds (name :: done) other more (by rw [shape]; rfl)
        simpa using later

variable {front cgi : Text} {names : List Text} {forest : Forest Text}
  (ground : Ground url front names cgi) (serves : Serves server (render front names) forest)
  {route : List Text} {here : Forest Text}
include ground

theorem under_inj {first second : List Text} (one : ∀ name ∈ first, Plain name)
    (two : ∀ name ∈ second, Plain name)
    (same : under (render front names) first = under (render front names) second) :
    first = second := by
  rw [ground.under_eq one, ground.under_eq two] at same
  exact render_inj ground.known (ground.proper one) (ground.proper two) same

theorem removed_map {request : Text → Request} {done : List Text} {name : Text}
    (asks : ∀ name, (request name).target = spot front names cgi (route ++ [name]))
    (plain : ∀ name ∈ route, Plain name) (listed : ∀ name ∈ done, Plain name) (next_ : Plain name)
    (removed : Removed (done.map request) (under (render front names) (route ++ [name]))) :
    name ∈ done := by
  obtain ⟨_, _, member⟩ := removed
  rw [removals, List.filterMap_map] at member
  obtain ⟨other, known, same⟩ := List.mem_filterMap.mp member
  have further := route_plain plain (listed other known)
  obtain ⟨kind, -, same⟩ := Option.map_eq_some_iff.mp same
  rw [Request.named, asks, ground.split further] at same
  have shape := under_inj ground further (route_plain plain next_)
    (congrArg (fun triple => triple.2.1) same)
  have last := List.append_cancel_left shape
  cases last
  exact known

include serves

theorem clear_run (plain : ∀ name ∈ route, Plain name) (all : here.All Plain)
    (distinct : here.Distinct)
    (inside : ∀ name kind, (name, kind) ∈ here.listing → (route ++ [name], kind) ∈ forest.members)
    (found : ∀ entry ∈ here.dirs, forest.find (route ++ [entry.1]) = some entry.2)
    {log : List Request}
    (kept : ∀ name ∈ here.names, ¬Removed log (under (render front names) (route ++ [name])))
    (empty : ∀ entry ∈ here.dirs, ∀ name ∈ entry.2.names,
      Removed log (under (render front names) (route ++ [entry.1] ++ [name]))) :
    clear url server ignoreErrors cgi
        ⟨under (render front names) route, here.dirs.map Prod.fst, here.files⟩ log =
      (true, log ++ own (spot front names cgi) route here) := by
  have listed : ∀ name ∈ here.names, Plain name := Forest.names_all all
  have texts : ∀ name ∈ here.names,
      url.abs (Posix.join (under (render front names) route) name ++ cgi) =
        spot front names cgi (route ++ [name]) := by
    intro name member
    rw [ground.join plain (listed name member)]
    exact ground.abs (route_plain plain (listed name member))
  have split : ∀ name ∈ here.names, (splitCgi (spot front names cgi (route ++ [name]))).1 =
      under (render front names) (route ++ [name]) := by
    intro name member
    rw [ground.split (route_plain plain (listed name member))]
  have isFile : ∀ name ∈ here.files, name ∈ here.names := fun name member =>
    Forest.mem_names.mpr (.inl member)
  have isDir : ∀ name ∈ here.dirs.map Prod.fst, name ∈ here.names := fun name member =>
    Forest.mem_names.mpr (.inr member)
  have files : each (fun name => remove url server ignoreErrors
      (Posix.join (under (render front names) route) name ++ cgi)) here.files log =
      (true, log ++ here.files.map fun name => .rm (spot front names cgi (route ++ [name]))) := by
    apply each_attempts
    · intro name member
      rw [remove, texts name (isFile name member)]
    · intro done name rest shape
      have member : name ∈ here.files := by simp [shape]
      have early : ∀ name ∈ done, name ∈ here.files := fun name known => by simp [shape, known]
      apply serves.rm _ _ _ (inside name false (Forest.mem_listing_file.mpr member))
        (split name (isFile name member))
      rw [removed_append, not_or]
      refine ⟨kept name (isFile name member), fun removed => ?_⟩
      have again := removed_map ground (by exact fun name => rfl) plain
        (fun name known => listed name (isFile name (early name known)))
        (listed name (isFile name member)) removed
      have unique := Forest.files_nodup distinct
      rw [shape, List.nodup_append] at unique
      exact unique.2.2 name again name List.mem_cons_self rfl
  have dirs : each (fun name => rmdir url server ignoreErrors
      (Posix.join (under (render front names) route) name ++ cgi)) (here.dirs.map Prod.fst)
      (log ++ here.files.map fun name => .rm (spot front names cgi (route ++ [name]))) =
      (true, (log ++ here.files.map fun name => .rm (spot front names cgi (route ++ [name]))) ++
        (here.dirs.map Prod.fst).map fun name => .rmdir (spot front names cgi (route ++ [name]))) := by
    apply each_attempts
    · intro name member
      rw [rmdir, texts name (isDir name member)]
    · intro done name rest shape
      have member : name ∈ here.dirs.map Prod.fst := by simp [shape]
      have early : ∀ name ∈ done, name ∈ here.dirs.map Prod.fst := fun name known => by
        simp [shape, known]
      obtain ⟨entry, known, rfl⟩ := List.mem_map.mp member
      apply serves.rmdir _ _ _ _ (found entry known) (split entry.1 (isDir entry.1 member))
      · rw [removed_append, removed_append, not_or, not_or]
        refine ⟨⟨kept entry.1 (isDir entry.1 member), fun removed => ?_⟩, fun removed => ?_⟩
        · have file := removed_map ground (by exact fun name => rfl) plain
            (fun name known => listed name (isFile name known))
            (listed entry.1 (isDir entry.1 member)) removed
          exact Forest.file_not_dir distinct file member
        · have again := removed_map ground (by exact fun name => rfl) plain
            (fun name known => listed name (isDir name (early name known)))
            (listed entry.1 (isDir entry.1 member)) removed
          have unique := Forest.dirs_nodup distinct
          rw [shape, List.nodup_append] at unique
          exact unique.2.2 entry.1 again entry.1 List.mem_cons_self rfl
      · intro name below
        rw [removed_append, removed_append]
        exact .inl (.inl (empty entry known name below))
  rw [clear, andThen]
  dsimp only
  rw [files]
  dsimp only
  rw [dirs, own, List.map_map, List.append_assoc]
  rfl

omit ground serves in
theorem entries_split {entries : List DirEntry}
    (answered : entries.map (fun entry => (entry.name, entry.isDirectory)) = here.listing) :
    (entries.filter fun entry => entry.isDirectory).map DirEntry.name = here.dirs.map Prod.fst ∧
      (entries.filter fun entry => !entry.isDirectory).map DirEntry.name = here.files := by
  rw [← Forest.listing_dirs, ← Forest.listing_files, ← answered, List.filter_map, List.filter_map,
    List.map_map, List.map_map]
  exact ⟨rfl, rfl⟩

/-- A directory is walked once what stands below it is: it is listed, then everything
below its directories is removed, then its own entries are. -/
theorem walk_run (plain : ∀ name ∈ route, Plain name) (all : here.All Plain)
    (distinct : here.Distinct) (found : forest.find route = some here)
    (inside : ∀ more kind, (more, kind) ∈ here.members → (route ++ more, kind) ∈ forest.members)
    {fuel : Nat} {log : List Request}
    (stands : ¬Removed log (under (render front names) route))
    (kept : ∀ member ∈ here.members, ¬Removed log (under (render front names) (route ++ member.1)))
    (below : each (fun name => walk url server (clear url server ignoreErrors cgi) fuel
        (Posix.join (under (render front names) route) name ++ cgi)) (here.dirs.map Prod.fst)
        (log ++ [.dirlist (spot front names cgi route)]) =
      (true, log ++ [.dirlist (spot front names cgi route)] ++
        descend (spot front names cgi) route here)) :
    walk url server (clear url server ignoreErrors cgi) (fuel + 1) (spot front names cgi route) log =
      (true, log ++ .dirlist (spot front names cgi route) ::
        (descend (spot front names cgi) route here ++ own (spot front names cgi) route here)) := by
  have some : spot front names cgi route ≠ [] := by
    have head : (render front (names ++ route)).head? = .some slash :=
      Client.render_head ground.known
    intro none
    rw [(List.append_eq_nil_iff.mp none).1] at head
    cases head
  have root : url.abs (orRoot (spot front names cgi route)) = spot front names cgi route := by
    rw [orRoot, if_neg some, ground.abs plain]
  have split := ground.split plain
  obtain ⟨entries, answer, answered⟩ := serves.lists log route here (spot front names cgi route)
    found (by rw [split]) stands kept
  have cleared : clear url server ignoreErrors cgi
      ⟨under (render front names) route, here.dirs.map Prod.fst, here.files⟩
      (log ++ [.dirlist (spot front names cgi route)] ++ descend (spot front names cgi) route here) =
      (true, log ++ [.dirlist (spot front names cgi route)] ++
        descend (spot front names cgi) route here ++ own (spot front names cgi) route here) := by
    apply clear_run ground serves plain all distinct
    · intro name kind listed
      exact inside [name] kind (Forest.listing_member listed)
    · intro entry member
      exact Forest.find_dir found distinct member
    · intro name member removed
      obtain ⟨item, listed, rfl⟩ := List.mem_map.mp member
      rw [removed_append, removed_append] at removed
      rcases removed with (early | asked) | deeper
      · exact kept _ (Forest.listing_member listed) early
      · exact removed_listing _ _ asked
      · -- what was removed on the way stands at least one name further down
        obtain ⟨_, _, gone⟩ := deeper
        obtain ⟨-, first, inner, more, known, there, same⟩ := mem_descend ground plain all gone
        have longer := under_inj ground (route_plain plain (Forest.names_all all item.1 member))
          (deeper_plain plain all known there) same
        obtain ⟨_, _, shape, -⟩ := Forest.member_head there
        rw [shape] at longer
        cases List.append_cancel_left longer
    · intro entry member name listed
      obtain ⟨item, known, rfl⟩ := List.mem_map.mp listed
      rw [removed_append]
      exact .inr ⟨_, _, descend_empties ground plain all member item known⟩
  rw [walk]
  dsimp only
  rw [root, root, answer, split]
  dsimp only
  rw [(entries_split answered).1, (entries_split answered).2, andThen, below]
  dsimp only
  rw [cleared]
  simp

theorem descend_run (plain : ∀ name ∈ route, Plain name) (all : here.All Plain)
    (distinct : here.Distinct)
    (found : ∀ entry ∈ here.dirs, forest.find (route ++ [entry.1]) = some entry.2)
    (inside : ∀ more kind, (more, kind) ∈ here.members → (route ++ more, kind) ∈ forest.members)
    {fuel : Nat} (enough : here.height ≤ fuel) {log : List Request}
    (kept : ∀ member ∈ here.members,
      ¬Removed log (under (render front names) (route ++ member.1))) :
    each (fun name => walk url server (clear url server ignoreErrors cgi) fuel
        (Posix.join (under (render front names) route) name ++ cgi)) (here.dirs.map Prod.fst) log =
      (true, log ++ descend (spot front names cgi) route here) := by
  induction here generalizing route fuel log with
  | nil => rw [descend, List.append_nil]; rfl
  | file first rest induction =>
      exact induction plain all.2 distinct.2 found
        (fun more kind member => inside more kind (List.mem_cons_of_mem _ member)) enough
        fun member known => kept member (List.mem_cons_of_mem _ known)
  | dir first inner rest deeper induction =>
      obtain ⟨fuel, rfl⟩ : ∃ less, fuel = less + 1 := ⟨fuel - 1, by rw [Forest.height] at enough; omega⟩
      have low : inner.height ≤ fuel := by
        rw [Forest.height] at enough
        omega
      have further := route_plain plain all.1
      have here : forest.find (route ++ [first]) = some inner :=
        found (first, inner) List.mem_cons_self
      have members : ∀ more kind, (more, kind) ∈ inner.members →
          (route ++ [first] ++ more, kind) ∈ forest.members := by
        intro more kind member
        rw [List.append_assoc]
        exact inside (first :: more) kind (List.mem_append_left _ (List.mem_cons_of_mem _
          (List.mem_map.mpr ⟨_, member, rfl⟩)))
      have stands : ¬Removed log (under (render front names) (route ++ [first])) :=
        kept ([first], true) (List.mem_append_left _ List.mem_cons_self)
      have intact : ∀ member ∈ inner.members,
          ¬Removed log (under (render front names) (route ++ [first] ++ member.1)) := by
        intro member known
        rw [List.append_assoc]
        exact kept (first :: member.1, member.2) (List.mem_append_left _ (List.mem_cons_of_mem _
          (List.mem_map.mpr ⟨_, known, rfl⟩)))
      have walked := walk_run ground serves further all.2.1 distinct.2.1 here members stands intact
        (deeper further all.2.1 distinct.2.1
          (fun entry member => Forest.find_dir here distinct.2.1 member) members low fun member known removed => by
            rw [removed_append] at removed
            exact removed.elim (intact member known) (removed_listing _ _))
      rw [Forest.dirs, List.map_cons, each, andThen, ground.join plain all.1, walked]
      dsimp only
      rw [induction plain all.2.2 distinct.2.2
        (fun entry member => found entry (List.mem_cons_of_mem _ member))
        (fun more kind member => inside more kind (List.mem_append_right _ member))
        (by rw [Forest.height] at enough; omega)]
      · rw [descend]
        simp
      · intro member known removed
        obtain ⟨head, tail, shape, listed⟩ := Forest.member_head known
        rw [removed_append] at removed
        rcases removed with early | ⟨kind, data, gone⟩
        · exact kept member (List.mem_append_right _ known) early
        · -- what was removed for the first directory is in it, or below it
          have once := (descend_once ground further all.2.1).mem_iff.mp gone
          obtain ⟨other, there, same⟩ := List.mem_map.mp once
          have equal := under_inj ground
            (fun name either => (List.mem_append.mp either).elim (further name)
              (Forest.member_all all.2.1 there name))
            (fun name either => (List.mem_append.mp either).elim (plain name)
              (Forest.member_all all.2.2 known name))
            (congrArg (fun triple => triple.2.1) same)
          rw [shape, List.append_assoc] at equal
          have heads := List.append_cancel_left equal
          rw [List.singleton_append] at heads
          cases heads
          exact distinct.1 listed

end Runs

section Extent

variable {url : XRootDURL} {front cgi : Text} {names : List Text}
  (ground : Ground url front names cgi) {route : List Text} {here : Forest Text}

theorem descend_sublist {name : Text} {below : Forest Text} (known : (name, below) ∈ here.dirs) :
    (descend (spot front names cgi) (route ++ [name]) below ++
      own (spot front names cgi) (route ++ [name]) below).Sublist
      (descend (spot front names cgi) route here) := by
  induction here with
  | nil => cases known
  | file first rest induction => exact induction known
  | dir first inner rest _ induction =>
      rw [descend]
      rcases List.mem_cons.mp known with same | later
      · cases same
        rw [List.cons_append, List.cons_append]
        exact (List.sublist_append_left _ _).cons _
      · exact (induction later).trans (List.sublist_append_right _ _)

include ground

theorem descend_before (plain : ∀ name ∈ route, Plain name) (all : here.All Plain)
    {first name : Text} {more : List Text} {kind : Bool}
    (member : (first :: more ++ [name], kind) ∈ here.members) :
    List.Sublist [(kind, under (render front names) (route ++ (first :: more ++ [name])), cgi),
      (true, under (render front names) (route ++ first :: more), cgi)]
      (removals (descend (spot front names cgi) route here ++
        own (spot front names cgi) route here)) := by
  induction more generalizing route here first with
  | nil =>
      rcases Forest.member_cases member with ⟨_, shape, -⟩ | ⟨dir, below, rest, shape, known, there⟩
      · cases shape
      · cases shape
        have single : (name, kind) ∈ below.listing := by
          rcases Forest.member_cases there with ⟨_, same, listed⟩ | ⟨_, _, rest, same, -, inside⟩
          · cases same
            exact listed
          · cases same
            obtain ⟨_, _, impossible, -⟩ := Forest.member_head inside
            cases impossible
        have child := descend_empties ground plain all known (name, kind) single
        rw [List.append_assoc] at child
        have parent := (mem_own ground plain all).mpr
          ⟨first, Forest.mem_listing_dir.mpr (List.mem_map_of_mem (f := Prod.fst) known), rfl, rfl⟩
        rw [removals_append]
        exact (List.singleton_sublist.mpr child).append (List.singleton_sublist.mpr parent)
  | cons second more induction =>
      rcases Forest.member_cases member with ⟨_, shape, -⟩ | ⟨dir, below, rest, shape, known, there⟩
      · cases shape
      · cases shape
        have dirPlain := Forest.dir_all all known
        have deeper := induction (route_plain plain dirPlain.1) dirPlain.2 there
        rw [List.append_assoc, List.append_assoc] at deeper
        rw [removals_append]
        exact (deeper.trans ((descend_sublist known).filterMap _)).trans
          (List.sublist_append_left _ _)

omit ground

theorem own_inside {request : Request} (asked : request ∈ own (spot front names cgi) route here) :
    ∃ entry ∈ here.listing, request.target = spot front names cgi (route ++ [entry.1]) := by
  rcases List.mem_append.mp asked with file | dir
  · obtain ⟨name, known, rfl⟩ := List.mem_map.mp file
    exact ⟨(name, false), Forest.mem_listing_file.mpr known, rfl⟩
  · obtain ⟨entry, known, rfl⟩ := List.mem_map.mp dir
    exact ⟨(entry.1, true),
      Forest.mem_listing_dir.mpr (List.mem_map_of_mem (f := Prod.fst) known), rfl⟩

theorem descend_inside {request : Request}
    (asked : request ∈ descend (spot front names cgi) route here) :
    ∃ member ∈ here.members, request.target = spot front names cgi (route ++ member.1) := by
  induction here generalizing route with
  | nil => cases asked
  | file first rest induction =>
      obtain ⟨member, known, same⟩ := induction asked
      exact ⟨member, List.mem_cons_of_mem _ known, same⟩
  | dir first inner rest deeper induction =>
      have within : ∀ member ∈ inner.members,
          (first :: member.1, member.2) ∈ (Forest.dir first inner rest).members :=
        fun member known => List.mem_append_left _ (List.mem_cons_of_mem _
          (List.mem_map.mpr ⟨member, known, rfl⟩))
      rcases List.mem_append.mp asked with here | later
      · rcases List.mem_append.mp here with below | own
        · rcases List.mem_cons.mp below with rfl | inside
          · exact ⟨([first], true), List.mem_append_left _ List.mem_cons_self, rfl⟩
          · obtain ⟨member, known, same⟩ := deeper inside
            refine ⟨_, within member known, ?_⟩
            rw [same, List.append_assoc]
            rfl
        · obtain ⟨entry, listed, same⟩ := own_inside own
          refine ⟨_, within _ (Forest.listing_member listed), ?_⟩
          rw [same, List.append_assoc]
          rfl
      · obtain ⟨member, known, same⟩ := induction later
        exact ⟨member, List.mem_append_right _ known, same⟩

end Extent

section Whole

variable {url : XRootDURL} {server : Server} {ignoreErrors : Bool} {forest : Forest Text}

def asked (front : Text) (names : List Text) (cgi : Text) (forest : Forest Text) : List Request :=
  .dirlist (spot front names cgi []) :: (descend (spot front names cgi) [] forest ++
    own (spot front names cgi) [] forest ++ [.rmdir (spot front names cgi [])])

theorem abs_ground (based : url.Based) (path : Text) :
    ∃ front names cgi, Ground url front names cgi ∧ url.abs path = spot front names cgi [] ∧
      splitCgi (url.abs path) = (render front names, cgi) := by
  obtain ⟨rooted, bare⟩ := resolved_rooted based path
  obtain ⟨front, shape⟩ := normpath_rooted rooted
  have plain : ∀ name ∈ parts true (url.resolved path), Plain name := fun name member =>
    ⟨parts_proper _ name member, parts_mem bare name member⟩
  have ground : Ground url (lead (url.resolved path)) (parts true (url.resolved path))
      (cgi (spelled path) url.query) := ⟨front, plain, _, rfl⟩
  have same : url.abs path = spot (lead (url.resolved path)) (parts true (url.resolved path))
      (cgi (spelled path) url.query) [] := by
    rw [abs_eq, shape, spot, List.append_nil]
  refine ⟨_, _, _, ground, same, ?_⟩
  rw [same, ground.split fun name member => absurd member List.not_mem_nil]
  rfl

variable {front cgi : Text} {names : List Text} (ground : Ground url front names cgi)
  (all : forest.All Plain)
include ground all

theorem rmtree_run (distinct : forest.Distinct)
    (serves : Serves server (render front names) forest) {fuel : Nat} (enough : forest.height < fuel)
    {path : Text} (resolved : url.abs path = spot front names cgi []) :
    rmtree url server ignoreErrors fuel path [] = (true, asked front names cgi forest) := by
  have nowhere : ∀ name ∈ ([] : List Text), Plain name := fun name member =>
    absurd member List.not_mem_nil
  have fresh : ∀ place, ¬Removed [] place := by
    rintro place ⟨_, _, member⟩
    cases member
  have split := ground.split nowhere
  obtain ⟨fuel, rfl⟩ : ∃ less, fuel = less + 1 := ⟨fuel - 1, by omega⟩
  have inside : ∀ more kind, (more, kind) ∈ forest.members → ([] ++ more, kind) ∈ forest.members :=
    fun more kind member => member
  have walked : walk url server (clear url server ignoreErrors cgi) (fuel + 1)
      (spot front names cgi []) [] = (true, [] ++ .dirlist (spot front names cgi []) ::
        (descend (spot front names cgi) [] forest ++ own (spot front names cgi) [] forest)) := by
    apply walk_run ground serves nowhere all distinct rfl inside (fresh _)
    · exact fun member _ => fresh _
    · apply descend_run ground serves nowhere all distinct
      · exact fun entry member => Forest.find_dir rfl distinct member
      · exact inside
      · exact Nat.le_of_lt_succ enough
      · exact fun member _ => removed_listing _ _
  have gone := descend_once ground nowhere all
  have last : server.removes ([] ++ .dirlist (spot front names cgi []) ::
      (descend (spot front names cgi) [] forest ++ own (spot front names cgi) [] forest))
      (.rmdir (spot front names cgi [])) = true := by
    apply serves.rmdir _ [] forest _ rfl
    · rw [split]
    · rintro ⟨kind, data, removed⟩
      obtain ⟨member, known, same⟩ := List.mem_map.mp (gone.mem_iff.mp removed)
      have top := under_inj ground (Forest.member_all all known) nowhere
        (congrArg (fun triple => triple.2.1) same)
      obtain ⟨_, _, shape, -⟩ := Forest.member_head known
      rw [shape] at top
      cases top
    · intro name listed
      obtain ⟨entry, known, rfl⟩ := List.mem_map.mp listed
      exact ⟨_, _, gone.mem_iff.mpr (List.mem_map.mpr
        ⟨_, Forest.listing_member known, rfl⟩)⟩
  rw [rmtree, resolved, split]
  dsimp only
  rw [andThen, walked]
  dsimp only
  rw [rmdir, ground.abs nowhere, attempt, last, asked]
  simp

theorem asked_exact : Exact (render front names) cgi forest (true, asked front names cgi forest) := by
  have nowhere : ∀ name ∈ ([] : List Text), Plain name := fun name member =>
    absurd member List.not_mem_nil
  have split := ground.split nowhere
  have gone : removals (asked front names cgi forest) =
      removals (descend (spot front names cgi) [] forest ++ own (spot front names cgi) [] forest) ++
        [(true, under (render front names) [], cgi)] := by
    have last : removals [.rmdir (spot front names cgi [])] =
        [(true, under (render front names) [], cgi)] := by
      simp [removals, Request.kind, Request.named, Request.carried, Request.target, split]
    rw [← last]
    exact removals_append _ _
  have once := descend_once ground nowhere all
  constructor
  · rfl
  · rw [gone, List.map_cons]
    exact (List.perm_append_singleton _ _).trans (once.cons _)
  · intro route name kind member
    rw [gone]
    cases route with
    | nil =>
        have child := once.mem_iff.mpr (List.mem_map.mpr ⟨_, member, rfl⟩)
        exact (List.singleton_sublist.mpr child).append (List.Sublist.refl _)
    | cons first more =>
        exact (descend_before ground nowhere all member).trans (List.sublist_append_left _ _)
  · intro request member
    have place : ∃ member ∈ ([], true) :: forest.members,
        request.target = spot front names cgi member.1 := by
      rcases List.mem_cons.mp member with rfl | later
      · exact ⟨_, List.mem_cons_self, rfl⟩
      · rcases List.mem_append.mp later with inner | last
        · rcases List.mem_append.mp inner with below | own
          · obtain ⟨other, known, same⟩ := descend_inside below
            exact ⟨other, List.mem_cons_of_mem _ known, same⟩
          · obtain ⟨entry, listed, same⟩ := own_inside own
            exact ⟨_, List.mem_cons_of_mem _ (Forest.listing_member listed), same⟩
        · rw [List.mem_singleton.mp last]
          exact ⟨_, List.mem_cons_self, rfl⟩
    obtain ⟨other, known, same⟩ := place
    have plain : ∀ name ∈ other.1, Plain name := by
      rcases List.mem_cons.mp known with rfl | inside
      · exact nowhere
      · exact Forest.member_all all inside
    rw [Request.carried, Request.named, same, ground.split plain]
    exact ⟨rfl, other, known, rfl⟩

end Whole

section Marked

theorem mem_under {char : Char} {top : Text} {route : List Text}
    (proper : ∀ name ∈ route, Proper name) (member : char ∈ top ∨ ∃ name ∈ route, char ∈ name) :
    char ∈ under top route := by
  induction route generalizing top with
  | nil =>
      rcases member with here | ⟨_, none, -⟩
      · exact here
      · cases none
  | cons name rest induction =>
      have starts : name.head? ≠ some slash := fun same =>
        (proper name List.mem_cons_self).single (List.mem_of_head? same)
      apply induction fun other known => proper other (List.mem_cons_of_mem _ known)
      have joined : char ∈ top ∨ char ∈ name → char ∈ Posix.join top name := by
        rw [Posix.join, if_neg starts]
        split_ifs <;> simp +contextual [or_imp]
      rcases member with here | ⟨other, known, inside⟩
      · exact .inl (joined (.inl here))
      · rcases List.mem_cons.mp known with rfl | later
        · exact .inl (joined (.inr inside))
        · exact .inr ⟨other, later, inside⟩

theorem removed_bare {log : List Request} {kind : Bool} {place data : Text}
    (removed : (kind, place, data) ∈ removals log) : '?' ∉ place := by
  obtain ⟨request, -, same⟩ := List.mem_filterMap.mp removed
  obtain ⟨_, -, same⟩ := Option.map_eq_some_iff.mp same
  cases same
  exact Lib.Percent.partition_front '?' request.target

end Marked

/-- The tree at a path is removed exactly where no name in it holds a question mark. -/
theorem rmtree_exact_iff {url : XRootDURL} (based : url.Based) (path : Text) {forest : Forest Text}
    (formed : forest.All Entry) (distinct : forest.Distinct) {server : Server}
    (serves : Serves server (splitCgi (url.abs path)).1 forest) (ignoreErrors : Bool) {fuel : Nat}
    (enough : forest.height < fuel) :
    Exact (splitCgi (url.abs path)).1 (splitCgi (url.abs path)).2 forest
        (rmtree url server ignoreErrors fuel path []) ↔
      forest.All fun name => '?' ∉ name := by
  obtain ⟨front, names, cgi, ground, resolved, split⟩ := abs_ground based path
  rw [split] at serves ⊢
  constructor
  · intro exact_
    apply Forest.all_of_members
    intro member known name inside marked
    have removed := exact_.once.mem_iff.mpr
      (List.mem_map.mpr ⟨member, List.mem_cons_of_mem _ known, rfl⟩)
    have proper : ∀ name ∈ member.1, Proper name := fun name inside =>
      (Forest.member_all formed known name inside).toProper
    exact removed_bare removed (mem_under proper (.inr ⟨name, inside, marked⟩))
  · intro bare
    have all : forest.All Plain := Forest.all_and formed bare
      fun name entry unmarked => ⟨entry.toProper, unmarked⟩
    rw [rmtree_run ground all distinct serves enough resolved]
    exact asked_exact ground all

section Paths

variable {url : XRootDURL} {server : Server} {ignoreErrors : Bool}

def gone (log : List Request) : List Text := (removals log).map fun removal => removal.2.1

/-- A piece of the run that asks for the removal of these paths where it goes through. -/
def Removes (act : Step) (paths : List Text) : Prop :=
  ∀ log, (act log).1 = true → gone (act log).2 = gone log ++ paths

theorem removes_then {first second : Step} {one other : List Text} (front : Removes first one)
    (behind : Removes second other) : Removes (andThen first second) (one ++ other) := by
  intro log through
  have early := front log
  unfold andThen at through ⊢
  generalize first log = outcome at early through
  obtain ⟨went, later⟩ := outcome
  cases went with
  | false => cases through
  | true => rw [behind later through, early rfl, List.append_assoc]

theorem removes_each {act : Text → Step} {paths : Text → List Text}
    (one : ∀ name, Removes (act name) (paths name)) (names : List Text) :
    Removes (each act names) (names.flatMap paths) := by
  induction names with
  | nil =>
      intro log _
      rw [List.flatMap_nil, List.append_nil]
      rfl
  | cons name rest induction =>
      rw [List.flatMap_cons]
      exact removes_then (one name) induction

theorem removes_attempt {request : Request} {kind : Bool} (removal : request.kind = some kind) :
    Removes (attempt server ignoreErrors request) [request.named] := by
  intro log _
  unfold gone
  dsimp only [attempt]
  rw [removals_append, List.map_append]
  simp [removals, removal]

theorem gone_dirlist (log : List Request) (target : Text) :
    gone (log ++ [.dirlist target]) = gone log := by
  unfold gone
  rw [removals_append]
  exact congrArg _ (List.append_nil _)

def filesystem (url : XRootDURL) (based : url.Based) : Client.FileSystem where
  path := url.path
  rooted := based.rooted
  bare := based.bare
  data := Client.rootOpaque fun explicit =>
    Percent.urlencode
      (url.query.entries.filter fun entry => entry.1 ∉ (Percent.parseQsl explicit).map Prod.fst)

theorem filesystem_abs (based : url.Based) (path : Text) :
    (filesystem url based).abs path = url.abs path :=
  url.abs_filesystem _ rfl rfl path

theorem tops_some (based : url.Based) (path name : Text) :
    url.abs path ≠ [] ∧
      Posix.join (splitCgi (url.abs path)).1 name ++ (splitCgi (url.abs path)).2 ≠ [] := by
  obtain ⟨front, names, tail, placed⟩ := Client.abs_placed (filesystem url based) path
  rw [filesystem_abs] at placed
  have head := @Client.render_head front names placed.known
  have some : render front names ≠ [] := by
    intro none
    rw [none] at head
    cases head
  rw [placed.split]
  constructor
  · rw [placed.shape]
    exact List.append_ne_nil_of_left_ne_nil some tail
  · apply List.append_ne_nil_of_left_ne_nil
    unfold Posix.join
    split_ifs with rooted
    · intro none
      rw [none] at rooted
      cases rooted
    · exact List.append_ne_nil_of_left_ne_nil some name
    · exact List.append_ne_nil_of_left_ne_nil some _

theorem removes_walk (based : url.Based) {lists : Text → Option (List DirEntry)}
    (steady : ∀ log target, server.lists log target = lists target) {visited : Visit → Step}
    {paths : Visit → List Text} (one : ∀ visit, Removes (visited visit) (paths visit)) (fuel : Nat)
    {top : Text} (some_ : top ≠ []) (route : List Text) :
    Removes (walk url server visited fuel top)
      ((Client.walk (filesystem url based) (fun _ root => lists (url.abs (orRoot root))) false fuel
        route top).flatMap paths) := by
  induction fuel generalizing top route with
  | zero =>
      intro log through
      cases through
  | succ fuel induction =>
      intro log through
      rw [walk, orRoot, if_neg some_] at through ⊢
      rw [Client.walk, filesystem_abs]
      dsimp only at through ⊢
      rw [steady] at through ⊢
      generalize lists (url.abs (orRoot (url.abs top))) = listed at through ⊢
      cases listed with
      | none =>
          dsimp only
          rw [gone_dirlist, List.flatMap_nil, List.append_nil]
      | some entries =>
          dsimp only at through ⊢
          rw [if_neg Bool.false_ne_true, List.flatMap_append, List.flatMap_singleton,
            List.flatMap_assoc, ← gone_dirlist log (url.abs (orRoot (url.abs top)))]
          exact removes_then (removes_each (fun name =>
            induction (tops_some based top name).2 (route ++ [name])) _) (one _) _ through

theorem removes_clear (cgi : Text) (visit : Visit) :
    Removes (clear url server ignoreErrors cgi visit)
      ((visit.files ++ visit.dirs).map fun name =>
        (splitCgi (url.abs (Posix.join visit.dirpath name ++ cgi))).1) := by
  rw [List.map_append, List.map_eq_flatMap, List.map_eq_flatMap]
  exact removes_then (removes_each (fun name => removes_attempt rfl) _)
    (removes_each (fun name => removes_attempt rfl) _)

/-- Where a server answers a listing alike at any time, the paths a run removes are those
of the walk that is listed first. -/
theorem rmtree_walk (based : url.Based) {lists : Text → Option (List DirEntry)}
    (steady : ∀ log target, server.lists log target = lists target) (fuel : Nat) (path : Text)
    (through : (rmtree url server ignoreErrors fuel path []).1 = true) :
    gone (rmtree url server ignoreErrors fuel path []).2 =
      Client.rmtree (filesystem url based) (fun _ root => lists (url.abs (orRoot root))) fuel path := by
  have cleared := @removes_clear url server ignoreErrors (splitCgi (url.abs path)).2
  have walked := removes_walk based steady cleared fuel (tops_some based path []).1 []
  have last := @removes_attempt server ignoreErrors (.rmdir (url.abs (url.abs path))) true rfl
  have run := removes_then walked last [] through
  rw [Client.rmtree, filesystem_abs]
  simp only [Client.FileSystem.deletes, filesystem_abs]
  exact run

end Paths

def asDir (name : Text) : DirEntry := { name, stat := some { flags := 2 } }

def asFile (name : Text) : DirEntry := { name, stat := some { flags := 0 } }

def tokened : XRootDURL where
  path := str "/store"
  query := Dict.update ∅ [(authz, str "T")]

def nestedServer : Server where
  lists _ target :=
    if (splitCgi target).1 = str "/store/x" then some [asDir (str "d")] else some [asFile (str "f")]
  removes _ _ := true

theorem nested_served :
    Serves nestedServer (str "/store/x") (.holding (str "d") (str "f")) where
  lists log route here target found named _ _ := by
    rw [Forest.find_holding] at found
    split_ifs at found with top below
    · cases found
      subst top
      exact ⟨[asDir (str "d")], if_pos named, by decide⟩
    · cases found
      subst below
      refine ⟨[asFile (str "f")], if_neg ?_, by decide⟩
      rw [named]
      decide
  rm _ _ _ _ _ _ := rfl
  rmdir _ _ _ _ _ _ _ _ := rfl

theorem nested_removed :
    Exact (str "/store/x") (str "?authz=T") (.holding (str "d") (str "f"))
      (rmtree tokened nestedServer false 2 (str "x/") []) :=
  (@rmtree_exact_iff tokened ⟨rfl, by decide⟩ (str "x/") (.holding (str "d") (str "f"))
    (by decide) (by decide)
    nestedServer nested_served false 2 (by decide)).mpr (by decide)

def marked : Forest Text := .file (str "a?b") .nil

def markedServer : Server where
  lists _ _ := some [asFile (str "a?b")]
  removes _ _ := true

theorem marked_served : Serves markedServer (str "/store") marked where
  lists log route here target found named _ _ := by
    match route with
    | [] =>
        cases found
        exact ⟨[asFile (str "a?b")], rfl, by decide⟩
    | name :: rest => cases found
  rm _ _ _ _ _ _ := rfl
  rmdir _ _ _ _ _ _ _ _ := rfl

/-- The request for it names another file. -/
theorem another_removed :
    ¬∀ (url : XRootDURL), url.Based → ∀ (path : Text) (forest : Forest Text), forest.All Entry →
      forest.Distinct → ∀ (server : Server), Serves server (splitCgi (url.abs path)).1 forest →
      ∀ (ignoreErrors : Bool) (fuel : Nat), forest.height < fuel →
        Exact (splitCgi (url.abs path)).1 (splitCgi (url.abs path)).2 forest
          (rmtree url server ignoreErrors fuel path []) := by
  intro always
  have exact_ := always { path := str "/store" } ⟨rfl, by decide⟩ [] marked (by decide) (by decide)
    markedServer marked_served false 1 (by decide)
  have other := exact_.inside (.rm (str "/store/a?b")) (by decide)
  revert other
  decide

end XRootDClient.Rmtree
