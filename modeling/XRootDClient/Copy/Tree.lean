import Mathlib.Data.List.Dedup
import XRootDClient.Copy.Kept
import XRootDClient.Lib.Dict

/-!
# Recursive copies

`copy_tree` with `delete`: the source is walked, every file the selection admits is
copied, and what is then found at the target and was not wanted is removed. A walk
passes over a directory that cannot be listed, as `os.walk` and `FileSystem.walk`
do. The files of a tree are told by their paths from its root, and a root server takes
a path only up to its first question mark.
-/

set_option autoImplicit false

namespace XRootDClient.Copy

open Lib Lib.BigEndian Lib.Stateful

abbrev Path := List Text

/-- The file of a path that `FileSystem._abs` and the servers cut at its first `?`: what is
behind is opaque data. -/
def beforeQuery : Path → Path
  | [] => []
  | name :: rest =>
      if '?' ∈ name then
        let front := name.takeWhile (· ≠ '?')
        if front = [] ∨ front = ['.'] then [] else [front]
      else name :: beforeQuery rest

def served (scheme : Scheme) (rel : Path) : Path :=
  if scheme = .root then beforeQuery rel else rel

inductive Side
  | source
  | target
  deriving DecidableEq

structure Trees where
  source : Dict Path Bytes
  target : Dict Path Bytes

variable {Pattern : Type}

/-- The names of the files right in a directory, given the paths below it. -/
def filesIn (below : List Path) : List Text :=
  below.filterMap fun
    | [name] => some name
    | _ => none

def dirsIn (below : List Path) : List Text :=
  (below.filterMap fun
    | name :: _ :: _ => some name
    | _ => none).dedup

def descend (name : Text) (below : List Path) : List Path :=
  below.filterMap fun
    | first :: next_ :: rest => if first = name then some (next_ :: rest) else none
    | _ => none

/-- `walk`: the files of a directory, then those of its directories. A listing that
fails is passed over. -/
def walkFrom (fails : Path → Bool) : Nat → Path → List Path → List Path
  | 0, _, _ => []
  | depth + 1, dir, below =>
      if fails dir then []
      else
        (filesIn below).map (fun name => dir ++ [name]) ++
          (dirsIn below).flatMap fun name => walkFrom fails depth (dir ++ [name]) (descend name below)

def deepest (paths : List Path) : Nat := paths.foldr (fun path most => max path.length most) 0

def walk (fails : Path → Bool) (tree : Dict Path Bytes) : List Path :=
  walkFrom fails (deepest tree.keys) [] tree.keys

inductive SyncMode
  | size
  | mtime
  | checksum
  deriving DecidableEq

/-- The order in which a pool of workers takes its items, each of them once. -/
structure Order (Item : Type) where
  arrange : List Item → List Item
  each : ∀ items, (arrange items).Perm items

structure TreeCall (Pattern : Type) where
  sourceScheme : Scheme
  targetScheme : Scheme
  chunk : Nat
  inFlight : Nat
  parallelChunks : Nat
  verifyChecksums : Bool
  parallelFiles : Nat
  include_ : List Pattern := []
  exclude : List Pattern := []
  sync : Option SyncMode := none
  delete : Bool := false
  workers : Option Nat := none
  verify : Option Bool := none
  overwrite : Bool := true
  progress : Bool := false
  dryRun : Bool := false
  removeSource : Bool := false
  resume : Bool := false

def TreeCall.sourceOf (call : TreeCall Pattern) (rel : Path) : Path := served call.sourceScheme rel

def TreeCall.targetOf (call : TreeCall Pattern) (rel : Path) : Path := served call.targetScheme rel

structure TreeCircumstances (Pattern : Type) where
  fnmatch : Path → Pattern → Bool
  /-- Listings that fail, of the source and of the target. -/
  fails : Side → Path → Bool
  mtime : Side × Path → Int
  copies : Path → Circumstances (Side × Path)
  /-- Checks, directories to make and deletions that raise. -/
  checkRaises : Path → Bool
  makedirsRaises : Path → Bool
  removeRaises : Path → Bool
  order : Order Path

variable (now : TreeCircumstances Pattern) (call : TreeCall Pattern)

abbrev TreeAct := EStateM Error Trees

/-- `_selected`: an explicit include list is a whitelist, exclude wins. -/
def selected (rel : Path) : Bool :=
  if !call.include_.isEmpty && !call.include_.any (now.fnmatch rel) then false
  else !call.exclude.any (now.fnmatch rel)

def Trees.disk (trees : Trees) : Disk (Side × Path) where
  files
    | (.source, path) => trees.source.get? path
    | (.target, path) => trees.target.get? path

def stored (tree : Dict Path Bytes) (path : Path) : Option Bytes → Dict Path Bytes
  | some content => tree.set path content
  | none => tree.erase path

/-- The trees after a copy of one file, which touches only its two ends. -/
def Trees.taken (trees : Trees) (source target : Path) (disk : Disk (Side × Path)) : Trees where
  source := stored trees.source source (disk.files (.source, source))
  target := stored trees.target target (disk.files (.target, target))

def fileCall (rel : Path) : Call (Side × Path) where
  source := .url ⟨call.sourceScheme, (.source, call.sourceOf rel)⟩
  target := .url ⟨call.targetScheme, (.target, call.targetOf rel)⟩
  chunk := call.chunk
  inFlight := call.inFlight
  parallelChunks := call.parallelChunks
  verifyChecksums := call.verifyChecksums
  verify := call.verify
  overwrite := call.overwrite
  progress := call.progress
  dryRun := call.dryRun
  removeSource := call.removeSource
  resume := call.resume

def upToDate (mode : SyncMode) (rel : Path) : TreeAct Bool := do
  let disk := (← get).disk
  let source : Url (Side × Path) := ⟨call.sourceScheme, (.source, call.sourceOf rel)⟩
  let target : Url (Side × Path) := ⟨call.targetScheme, (.target, call.targetOf rel)⟩
  match probe (now.copies rel) target disk, probe (now.copies rel) source disk with
  | some theirs, some ours =>
      if theirs ≠ ours then return false
      else
        match mode with
        | .size => return true
        | .mtime => return now.mtime target.name ≥ now.mtime source.name
        | .checksum =>
            if now.checkRaises rel then throw .io
            else return digestOf (now.copies rel) source disk = digestOf (now.copies rel) target disk
  | _, _ => return false

/-- `sync is not None and _up_to_date(...)`. -/
def skips (rel : Path) : TreeAct Bool :=
  match call.sync with
  | none => pure false
  | some mode => upToDate now call mode rel

def copyFile (rel : Path) : TreeAct CopyResult := fun trees =>
  match copy (now.copies rel) (fileCall call rel) trees.disk with
  | .ok result disk => .ok result (trees.taken (call.sourceOf rel) (call.targetOf rel) disk)
  | .error error disk => .error error (trees.taken (call.sourceOf rel) (call.targetOf rel) disk)

def move (rel : Path) : TreeAct (Option CopyResult) := do
  if ← skips now call rel then return none
  else if call.targetScheme = .local_ && !call.dryRun && now.makedirsRaises rel then throw .io
  else return some (← copyFile now call rel)

def moves : List Path → TreeAct (List (Path × Option CopyResult))
  | [] => pure []
  | rel :: rest => do
      let done ← move now call rel
      let others ← moves rest
      return (rel, done) :: others

/-- `_prune`, given what was found at the target. A directory is listed before anything in
it is deleted, so the whole walk can be taken first. -/
def prune (keep : List Path) : List Path → TreeAct (List Path)
  | [] => pure []
  | rel :: rest => do
      if rel ∈ keep then prune keep rest
      else
        if !call.dryRun then
          if now.removeRaises rel then throw .io
          else modify fun trees => { trees with
            target := trees.target.erase (call.targetOf rel) }
        return rel :: (← prune keep rest)

def wanted (trees : Trees) : List Path :=
  (walk (now.fails .source) trees.source).filter (selected now call)

def pruned (keep : List Path) : TreeAct Unit := do
  if call.delete then
    let trees ← get
    let _ ← prune now call keep (walk (now.fails .target) trees.target)
  else return ()

def copyTree : TreeAct (List CopyResult) := do
  let wanted := wanted now call (← get)
  let count := call.workers.getD call.parallelFiles
  let done ← moves now call (if count > 1 then now.order.arrange wanted else wanted)
  pruned now call wanted
  return wanted.filterMap fun rel => (done.find? fun entry => entry.1 = rel).bind Prod.snd

def reaches (fails : Path → Bool) : Path → Path → Bool
  | _, [] => false
  | dir, name :: rest => !fails dir && (rest.isEmpty || reaches fails (dir ++ [name]) rest)

section Walks

variable {below : List Path} {name : Text}

theorem mem_files_in : name ∈ filesIn below ↔ [name] ∈ below := by
  rw [filesIn, List.mem_filterMap]
  constructor
  · rintro ⟨path, member, named⟩
    split at named <;> cases named
    exact member
  · exact fun member => ⟨[name], member, rfl⟩

theorem mem_dirs_in : name ∈ dirsIn below ↔ ∃ path ≠ [], name :: path ∈ below := by
  rw [dirsIn, List.mem_dedup, List.mem_filterMap]
  constructor
  · rintro ⟨path, member, named⟩
    split at named <;> cases named
    exact ⟨_, List.cons_ne_nil _ _, member⟩
  · rintro ⟨path, some, member⟩
    obtain ⟨first, rest, rfl⟩ := List.exists_cons_of_ne_nil some
    exact ⟨_, member, rfl⟩

theorem mem_descend {path : Path} :
    path ∈ descend name below ↔ path ≠ [] ∧ name :: path ∈ below := by
  rw [descend, List.mem_filterMap]
  constructor
  · rintro ⟨whole, member, named⟩
    split at named
    · split_ifs at named with same
      cases named
      subst same
      exact ⟨List.cons_ne_nil _ _, member⟩
    · cases named
  · rintro ⟨some, member⟩
    obtain ⟨first, rest, rfl⟩ := List.exists_cons_of_ne_nil some
    exact ⟨_, member, if_pos rfl⟩

theorem mem_walk_from (fails : Path → Bool) {depth : Nat} {dir rel : Path}
    (shallow : ∀ path ∈ below, path.length ≤ depth) :
    rel ∈ walkFrom fails depth dir below ↔
      ∃ path ∈ below, rel = dir ++ path ∧ reaches fails dir path = true := by
  -- one level of the tree for one more unit of depth
  induction depth generalizing dir below with
  | zero =>
      refine iff_of_false (List.not_mem_nil) ?_
      rintro ⟨path, member, -, reached⟩
      rw [List.length_eq_zero_iff.mp (Nat.le_zero.mp (shallow path member))] at reached
      cases reached
  | succ depth induction =>
      rw [walkFrom]
      by_cases failed : fails dir = true
      · rw [if_pos failed]
        refine iff_of_false (List.not_mem_nil) ?_
        rintro ⟨path, member, -, reached⟩
        cases path with
        | nil => cases reached
        | cons name rest => simp [reaches, failed] at reached
      · have lists : fails dir = false := Bool.eq_false_iff.mpr failed
        have deeper : ∀ name, ∀ path ∈ descend name below, path.length ≤ depth := by
          intro name path member
          have known := shallow _ (mem_descend.mp member).2
          rw [List.length_cons] at known
          omega
        rw [if_neg failed, List.mem_append, List.mem_map, List.mem_flatMap]
        constructor
        · rintro (⟨name, member, rfl⟩ | ⟨name, -, found⟩)
          · exact ⟨[name], mem_files_in.mp member, rfl, by simp [reaches, lists]⟩
          · obtain ⟨path, member, rfl, reached⟩ := (induction (deeper name)).mp found
            refine ⟨name :: path, (mem_descend.mp member).2, by simp, ?_⟩
            simp [reaches, lists, reached]
        · rintro ⟨path, member, rfl, reached⟩
          cases path with
          | nil => cases reached
          | cons name rest =>
              cases rest with
              | nil => exact .inl ⟨name, mem_files_in.mpr member, rfl⟩
              | cons first rest =>
                  have some : first :: rest ≠ [] := List.cons_ne_nil _ _
                  simp only [reaches, List.isEmpty_cons, Bool.false_or, Bool.and_eq_true] at reached
                  refine .inr ⟨name, mem_dirs_in.mpr ⟨_, some, member⟩, ?_⟩
                  refine (induction (deeper name)).mpr
                    ⟨_, mem_descend.mpr ⟨some, member⟩, by simp, ?_⟩
                  simp only [reaches, Bool.and_eq_true]
                  exact reached.2

theorem deepest_most : ∀ path ∈ below, path.length ≤ deepest below := by
  induction below with
  | nil => simp
  | cons path rest most =>
      intro other member
      rw [deepest, List.foldr_cons]
      rcases List.mem_cons.mp member with rfl | later
      · exact Nat.le_max_left _ _
      · exact Nat.le_trans (most other later) (Nat.le_max_right _ _)

theorem mem_walk (fails : Path → Bool) (tree : Dict Path Bytes) (rel : Path) :
    rel ∈ walk fails tree ↔ (tree.get? rel).isSome = true ∧ reaches fails [] rel = true := by
  have there : (tree.get? rel).isSome = true ↔ rel ∈ tree.keys := by
    rw [Dict.mem_keys, Option.isSome_iff_exists]
  rw [walk, mem_walk_from fails deepest_most, there]
  constructor
  · rintro ⟨path, member, rfl, reached⟩
    exact ⟨member, reached⟩
  · rintro ⟨member, reached⟩
    exact ⟨rel, member, rfl, reached⟩

end Walks

section Returned

variable {now call} {trees after : Trees} {rel : Path}

theorem get_stored (tree : Dict Path Bytes) (path other : Path) (found : Option Bytes) :
    (stored tree path found).get? other = if other = path then found else tree.get? other := by
  cases found with
  | none => exact tree.get_erase path other
  | some content => exact tree.get_set path other content

theorem up_to_date_returns {mode : SyncMode} {skipped : Bool}
    (returned : upToDate now call mode rel trees = .ok skipped after) :
    after = trees ∧ (skipped = true → (trees.target.get? (call.targetOf rel)).isSome = true) := by
  unfold upToDate at returned
  rw [run_bind, run_get] at returned
  dsimp only at returned
  cases theirs : probe (now.copies rel) ⟨call.targetScheme, (.target, call.targetOf rel)⟩
      trees.disk with
  | none =>
      rw [theirs] at returned
      cases returned
      exact ⟨rfl, nofun⟩
  | some length =>
      have there : (trees.target.get? (call.targetOf rel)).isSome = true := by
        obtain ⟨content, found, -⟩ := probe_some theirs
        exact Option.isSome_of_eq_some found
      rw [theirs] at returned
      cases ours : probe (now.copies rel) ⟨call.sourceScheme, (.source, call.sourceOf rel)⟩
          trees.disk with
      | none =>
          rw [ours] at returned
          cases returned
          exact ⟨rfl, fun _ => there⟩
      | some size =>
          rw [ours] at returned
          dsimp only at returned
          by_cases differ : length ≠ size
          · rw [if_pos differ] at returned
            cases returned
            exact ⟨rfl, fun _ => there⟩
          rw [if_neg differ] at returned
          refine ⟨?_, fun _ => there⟩
          cases mode with
          | size | mtime =>
              cases returned
              rfl
          | checksum =>
              dsimp only at returned
              split_ifs at returned
              · cases returned
              · cases returned
                rfl

theorem skips_returns {skipped : Bool} (returned : skips now call rel trees = .ok skipped after) :
    after = trees ∧ (skipped = true → (trees.target.get? (call.targetOf rel)).isSome = true) := by
  unfold skips at returned
  cases mode : call.sync with
  | none =>
      rw [mode] at returned
      cases returned
      exact ⟨rfl, nofun⟩
  | some mode =>
      simp only [mode] at returned
      exact up_to_date_returns returned

theorem copy_file_returns {result : CopyResult} (live : call.dryRun = false)
    (returned : copyFile now call rel trees = .ok result after) (path : Path) :
    (after.target.get? path).isSome = true ↔
      call.targetOf rel = path ∨ (trees.target.get? path).isSome = true := by
  unfold copyFile at returned
  cases outcome : copy (now.copies rel) (fileCall call rel) trees.disk with
  | error error disk =>
      rw [outcome] at returned
      cases returned
  | ok value disk =>
      rw [outcome] at returned
      cases returned
      have landed := (copy_lands live rfl rfl (by simp) outcome).1
      rw [Trees.taken]
      dsimp only
      rw [get_stored]
      split_ifs with same
      · exact iff_of_true landed (.inl same.symm)
      · exact ⟨.inr, fun either => either.resolve_left (Ne.symm same)⟩

theorem move_returns {result : Option CopyResult} (live : call.dryRun = false)
    (returned : move now call rel trees = .ok result after) (path : Path) :
    (after.target.get? path).isSome = true ↔
      call.targetOf rel = path ∨ (trees.target.get? path).isSome = true := by
  unfold move at returned
  obtain ⟨skipped, middle, skipping, rest⟩ := bind_returns returned
  obtain ⟨rfl, there⟩ := skips_returns skipping
  cases skipped with
  | true =>
      cases rest
      refine ⟨.inr, fun either => ?_⟩
      rcases either with rfl | here
      · exact there rfl
      · exact here
  | false =>
      rw [if_neg Bool.false_ne_true] at rest
      split_ifs at rest
      · cases rest
      · obtain ⟨value, last, copying, ends⟩ := bind_returns rest
        cases ends
        exact copy_file_returns live copying path

theorem moves_return {rels : List Path} {done : List (Path × Option CopyResult)}
    (live : call.dryRun = false) (returned : moves now call rels trees = .ok done after)
    (path : Path) :
    (after.target.get? path).isSome = true ↔
      (∃ rel ∈ rels, call.targetOf rel = path) ∨ (trees.target.get? path).isSome = true := by
  induction rels generalizing trees done with
  | nil =>
      cases returned
      simp
  | cons rel rest induction =>
      rw [moves] at returned
      obtain ⟨first, middle, moving, later⟩ := bind_returns returned
      obtain ⟨others, last, rest_, ends⟩ := bind_returns later
      cases ends
      rw [induction rest_, move_returns live moving, List.exists_mem_cons_iff, or_assoc, or_left_comm]

theorem prune_returns {keep found gone : List Path} (live : call.dryRun = false)
    (returned : prune now call keep found trees = .ok gone after) (path : Path) :
    (after.target.get? path).isSome = true ↔ (trees.target.get? path).isSome = true ∧
      ¬ ∃ rel ∈ found, rel ∉ keep ∧ call.targetOf rel = path := by
  induction found generalizing trees gone with
  | nil =>
      cases returned
      simp
  | cons rel rest induction =>
      rw [prune] at returned
      by_cases kept : rel ∈ keep
      · rw [if_pos kept] at returned
        rw [induction returned, List.exists_mem_cons_iff, or_iff_right fun gone => gone.1 kept]
      · simp only [if_neg kept, live, Bool.not_false, if_true] at returned
        by_cases raises : now.removeRaises rel = true
        · rw [if_pos raises] at returned
          cases returned
        rw [if_neg raises, run_bind, run_modify] at returned
        obtain ⟨others, last, pruning, ends⟩ := bind_returns returned
        cases ends
        rw [induction pruning, List.exists_mem_cons_iff]
        dsimp only
        rw [Dict.get_erase]
        split_ifs with same
        · refine iff_of_false (fun both => absurd both.1 (by simp)) ?_
          rintro ⟨-, none⟩
          exact none (.inl ⟨kept, same.symm⟩)
        · rw [or_iff_right fun gone => same gone.2.symm]

def Admitted (now : TreeCircumstances Pattern) (call : TreeCall Pattern) (trees : Trees)
    (rel : Path) : Prop :=
  (trees.source.get? rel).isSome = true ∧ selected now call rel = true

/-- The file was at the target, or an admitted one that listings reach is taken for it. -/
def Found (now : TreeCircumstances Pattern) (call : TreeCall Pattern) (trees : Trees)
    (path : Path) : Prop :=
  (trees.target.get? path).isSome = true ∨
    ∃ rel, (Admitted now call trees rel ∧ reaches (now.fails .source) [] rel = true) ∧
      call.targetOf rel = path

/-- Something that listings of the target reach, and that is not wanted, is taken for the
file. -/
def Swept (now : TreeCircumstances Pattern) (call : TreeCall Pattern) (trees : Trees)
    (path : Path) : Prop :=
  ∃ rel, (Found now call trees rel ∧ reaches (now.fails .target) [] rel = true) ∧
    ¬ (Admitted now call trees rel ∧ reaches (now.fails .source) [] rel = true) ∧
    call.targetOf rel = path

theorem mem_wanted : rel ∈ wanted now call trees ↔
    Admitted now call trees rel ∧ reaches (now.fails .source) [] rel = true := by
  rw [wanted, List.mem_filter, mem_walk, Admitted]
  tauto

/-- What is at the target after a copy with `delete`: what was found, and not swept. -/
theorem copy_tree_returns {results : List CopyResult} (live : call.dryRun = false)
    (delete : call.delete = true) (returned : copyTree now call trees = .ok results after)
    (path : Path) : (after.target.get? path).isSome = true ↔
      Found now call trees path ∧ ¬ Swept now call trees path := by
  unfold copyTree at returned
  rw [run_bind, run_get] at returned
  dsimp only at returned
  obtain ⟨done, middle, moving, rest⟩ := bind_returns returned
  obtain ⟨⟨⟩, last, pruning, ends⟩ := bind_returns rest
  cases ends
  have moved : ∀ path, (middle.target.get? path).isSome = true ↔ Found now call trees path := by
    intro path
    rw [moves_return live moving, or_comm, Found]
    simp only [← mem_wanted]
    split_ifs
    · simp only [(now.order.each _).mem_iff]
    · rfl
  unfold pruned at pruning
  rw [if_pos delete, run_bind, run_get] at pruning
  obtain ⟨gone, final_, pruning, ends⟩ := bind_returns pruning
  cases ends
  rw [prune_returns live pruning, moved, Swept]
  simp only [mem_walk, moved, mem_wanted]

end Returned

/-- The files under the target are the files of the source that the selection admits,
and only others have been removed. -/
structure Mirrored (now : TreeCircumstances Pattern) (call : TreeCall Pattern)
    (before after : Trees) : Prop where
  exact_ : ∀ path, (after.target.get? path).isSome = true ↔ Admitted now call before path
  removed : ∀ path, (before.target.get? path).isSome = true → after.target.get? path = none →
    ¬ Admitted now call before path

/-- Every admitted file is found and not swept, and every other that is found is swept. -/
structure Listed (now : TreeCircumstances Pattern) (call : TreeCall Pattern) (trees : Trees) :
    Prop where
  admitted : ∀ path, Admitted now call trees path →
    Found now call trees path ∧ ¬ Swept now call trees path
  others : ∀ path, Found now call trees path → ¬ Admitted now call trees path →
    Swept now call trees path

theorem served_plain {scheme : Scheme} {rel : Path}
    (plain : scheme = .root → ∀ name ∈ rel, '?' ∉ name) : served scheme rel = rel := by
  unfold served
  split_ifs with root
  · replace plain := plain root
    induction rel with
    | nil => rfl
    | cons name rest induction =>
        rw [List.forall_mem_cons] at plain
        rw [beforeQuery, if_neg plain.1, induction plain.2]
  · rfl

/-- Where no path has a question mark that a root server would cut it at: listings reach
every admitted file of the source, unless they do not reach the target's copy of it either,
and they reach every other file of the target. -/
theorem listed_plain_iff {now : TreeCircumstances Pattern} {call : TreeCall Pattern}
    {trees : Trees} (plain : ∀ rel, (trees.source.get? rel).isSome = true ∨
      (trees.target.get? rel).isSome = true → call.targetOf rel = rel) :
    Listed now call trees ↔
      (∀ path, Admitted now call trees path → reaches (now.fails .source) [] path = true ∨
        (trees.target.get? path).isSome = true ∧ reaches (now.fails .target) [] path = false) ∧
      ∀ path, (trees.target.get? path).isSome = true → ¬ Admitted now call trees path →
        reaches (now.fails .target) [] path = true := by
  have found : ∀ path, Found now call trees path ↔ (trees.target.get? path).isSome = true ∨
      Admitted now call trees path ∧ reaches (now.fails .source) [] path = true := by
    intro path
    apply or_congr Iff.rfl
    constructor
    · rintro ⟨rel, known, rfl⟩
      rw [plain rel (.inl known.1.1)]
      exact known
    · exact fun known => ⟨path, known, plain path (.inl known.1.1)⟩
  have swept : ∀ path, Swept now call trees path ↔
      ((trees.target.get? path).isSome = true ∧ reaches (now.fails .target) [] path = true) ∧
        ¬ (Admitted now call trees path ∧ reaches (now.fails .source) [] path = true) := by
    intro path
    constructor
    · rintro ⟨rel, ⟨there, reached⟩, other, rfl⟩
      have here := ((found rel).mp there).resolve_right other
      rw [plain rel (.inr here)]
      exact ⟨⟨here, reached⟩, other⟩
    · rintro ⟨⟨here, reached⟩, other⟩
      exact ⟨path, ⟨.inl here, reached⟩, other, plain path (.inr here)⟩
  constructor
  · rintro ⟨admitted, others⟩
    refine ⟨fun path known => ?_, fun path there other => ?_⟩
    · have both := admitted path known
      rw [found, swept] at both
      rcases both.1 with there | reached
      · by_contra none
        rw [not_or, not_and, Bool.not_eq_false] at none
        exact both.2 ⟨⟨there, none.2 there⟩, fun reached => none.1 reached.2⟩
      · exact .inl reached.2
    · have gone := (swept path).mp (others path ((found path).mpr (.inl there)) other)
      exact gone.1.2
  · rintro ⟨admitted, others⟩
    refine ⟨fun path known => ?_, fun path there other => ?_⟩
    · rw [found, swept]
      rcases admitted path known with reached | ⟨there, unreached⟩
      · exact ⟨.inr ⟨known, reached⟩, fun gone => gone.2 ⟨known, reached⟩⟩
      · refine ⟨.inl there, fun gone => ?_⟩
        rw [unreached] at gone
        cases gone.1.2
    · have here := ((found path).mp there).resolve_right fun known => other known.1
      exact (swept path).mpr ⟨⟨here, others path here other⟩, fun known => other known.1⟩

def still (fails : Side → Path → Bool) : TreeCircumstances Unit where
  fnmatch _ _ := true
  fails := fails
  mtime _ := 0
  copies _ := {
    statable := fun _ => true
    answers := fun _ => some 4
    takes := fun _ => some 4
    turns := []
    picks := []
    raises := fun _ => false
    checksum := fun _ _ => none
    hash := fun _ => [] }
  checkRaises _ := false
  makedirsRaises _ := false
  removeRaises _ := false
  order := ⟨id, fun _ => .refl _⟩

def mirroring : TreeCall Unit where
  sourceScheme := .local_
  targetScheme := .local_
  chunk := 4
  inFlight := 1
  parallelChunks := 1
  verifyChecksums := false
  parallelFiles := 1
  delete := true

def lone (path : Path) : Dict Path Bytes where
  entries := [(path, [7])]
  unique := List.nodup_singleton path

def queried : Dict Path Bytes where
  entries := [([str "a"], [7]), ([str "a?b"], [8])]
  unique := by decide

end XRootDClient.Copy
