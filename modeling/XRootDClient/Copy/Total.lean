import Mathlib.Algebra.Order.BigOperators.Group.List
import XRootDClient.Copy.Reports

/-!
# Many files at once

`copy_tree` with more than one worker: the files are handed out in the order the walk
found them, each is moved by the worker that took it, and what a copy reports is counted
into the whole under a lock. A copy touches only its own two ends, so that it is one step
here; what it reports is delivered position by position, in between the others'. The
results are collected in the order of the walk.

A copy that continues a file part-way reports where in the file it is, and so the whole
counts what was there before.
-/

set_option autoImplicit false

namespace XRootDClient.Copy

open Lib Lib.BigEndian Lib.Run Lib.Stateful

variable {Pattern : Type}

section File

variable {now alone : TreeCircumstances Pattern} {call : TreeCall Pattern} {rel : Path}
  {trees after other later : Trees}

def fileReports (now : TreeCircumstances Pattern) (call : TreeCall Pattern) (rel : Path)
    (trees : Trees) : List Nat :=
  match skips now call rel trees with
  | .ok false _ => reports (now.copies rel) (fileCall call rel) trees.disk
  | _ => []

/-- Two runs of a call that find the same, up to how much is read at a time and the order
threads go in. -/
structure AlikeTrees (now alone : TreeCircumstances Pattern) : Prop where
  fnmatch : now.fnmatch = alone.fnmatch
  fails : now.fails = alone.fails
  mtime : now.mtime = alone.mtime
  copies : ∀ rel, Alike (now.copies rel) (alone.copies rel)

/-- Two pairs of trees that hold the same where a path is taken for. -/
structure SameAt (call : TreeCall Pattern) (rel : Path) (trees other : Trees) : Prop where
  source : trees.source.get? (call.sourceOf rel) = other.source.get? (call.sourceOf rel)
  target : trees.target.get? (call.targetOf rel) = other.target.get? (call.targetOf rel)

/-- Two paths that are taken for different files at either end. -/
structure TreeCall.Apart (call : TreeCall Pattern) (one two : Path) : Prop where
  source : call.sourceOf one ≠ call.sourceOf two
  target : call.targetOf one ≠ call.targetOf two

theorem SameAt.symm (same : SameAt call rel trees other) : SameAt call rel other trees :=
  ⟨same.source.symm, same.target.symm⟩

theorem SameAt.trans (first : SameAt call rel trees other) (second : SameAt call rel other later) :
    SameAt call rel trees later :=
  ⟨first.source.trans second.source, first.target.trans second.target⟩

theorem SameAt.agree (same : SameAt call rel trees other) {source target : Scheme} :
    Agree ⟨source, (.source, call.sourceOf rel)⟩ ⟨target, (.target, call.targetOf rel)⟩ trees.disk
      other.disk :=
  ⟨same.source, same.target⟩

theorem up_to_date_alike (alike : AlikeTrees now alone) (same : SameAt call rel trees other)
    {mode : SyncMode} {first second : Bool}
    (one : upToDate now call mode rel trees = .ok first after)
    (two : upToDate alone call mode rel other = .ok second later) : first = second := by
  have agree : Agree ⟨call.sourceScheme, (.source, call.sourceOf rel)⟩
      ⟨call.targetScheme, (.target, call.targetOf rel)⟩ trees.disk other.disk := same.agree
  have ours := probe_alike (alike.copies rel) agree.source
  have theirs := probe_alike (alike.copies rel) agree.target
  have digests := digest_of_alike (alike.copies rel) agree.source
  have others := digest_of_alike (alike.copies rel) agree.target
  unfold upToDate at one two
  rw [run_bind, run_get] at one two
  dsimp only at one two
  rw [ours, theirs, alike.mtime] at one
  cases there : probe (alone.copies rel) ⟨call.targetScheme, (.target, call.targetOf rel)⟩ other.disk with
  | none =>
      rw [there] at one two
      cases one
      cases two
      rfl
  | some length =>
      cases here : probe (alone.copies rel) ⟨call.sourceScheme, (.source, call.sourceOf rel)⟩ other.disk with
      | none =>
          rw [there, here] at one two
          cases one
          cases two
          rfl
      | some size =>
          rw [there, here] at one two
          dsimp only at one two
          by_cases differ : length ≠ size
          · rw [if_pos differ] at one two
            cases one
            cases two
            rfl
          · rw [if_neg differ] at one two
            cases mode with
            | size | mtime =>
                cases one
                cases two
                rfl
            | checksum =>
                dsimp only at one two
                split_ifs at one two <;> cases one <;> cases two
                rw [digests, others]

theorem skips_alike (alike : AlikeTrees now alone) (same : SameAt call rel trees other)
    {first second : Bool} (one : skips now call rel trees = .ok first after)
    (two : skips alone call rel other = .ok second later) : first = second := by
  unfold skips at one two
  cases mode : call.sync with
  | none =>
      simp only [mode] at one two
      cases one
      cases two
      rfl
  | some mode =>
      simp only [mode] at one two
      exact up_to_date_alike alike same one two

theorem move_cases {result : Option CopyResult} (returned : move now call rel trees = .ok result after) :
    (skips now call rel trees = .ok true trees ∧ result = none ∧ after = trees) ∨
      ∃ copied disk, skips now call rel trees = .ok false trees ∧ result = some copied ∧
        copy (now.copies rel) (fileCall call rel) trees.disk = .ok copied disk ∧
        after = trees.taken (call.sourceOf rel) (call.targetOf rel) disk := by
  unfold move at returned
  obtain ⟨skipped, middle, skipping, rest⟩ := bind_returns returned
  obtain ⟨rfl, -⟩ := skips_returns skipping
  cases skipped with
  | true =>
      cases rest
      exact .inl ⟨skipping, rfl, rfl⟩
  | false =>
      rw [if_neg Bool.false_ne_true] at rest
      split_ifs at rest
      · cases rest
      · obtain ⟨value, last, copying, ends⟩ := bind_returns rest
        cases ends
        unfold copyFile at copying
        split at copying
        · next found =>
            cases copying
            exact .inr ⟨_, _, skipping, rfl, found, rfl⟩
        · cases copying

def TreeCircumstances.Full (now : TreeCircumstances Pattern) : Prop := ∀ rel, (now.copies rel).Full

theorem move_alike (alike : AlikeTrees now alone) (full : now.Full) (whole : alone.Full)
    (same : SameAt call rel trees other)
    {first second : Option CopyResult} (one : move now call rel trees = .ok first after)
    (two : move alone call rel other = .ok second later) : first = second := by
  rcases move_cases one with ⟨skipped, rfl, -⟩ | ⟨copied, disk, live, rfl, copying, -⟩
  · rcases move_cases two with ⟨-, rfl, -⟩ | ⟨_, _, live, -, -, -⟩
    · rfl
    · cases skips_alike alike same skipped live
  · rcases move_cases two with ⟨skipped, -, -⟩ | ⟨others, further, -, rfl, again, -⟩
    · cases skips_alike alike same live skipped
    · rw [(copy_alike (alike.copies rel) (full rel) (whole rel) same.agree rfl rfl (by simp) copying
        again).1]

theorem move_frame {result : Option CopyResult} {path : Path}
    (returned : move now call rel trees = .ok result after) (apart : call.Apart path rel) :
    SameAt call path trees after := by
  rcases move_cases returned with ⟨-, -, rfl⟩ | ⟨copied, disk, -, -, -, rfl⟩
  · exact ⟨rfl, rfl⟩
  · constructor
    · rw [Trees.taken, get_stored, if_neg apart.source]
    · rw [Trees.taken, get_stored, if_neg apart.target]

/-- Positions from an offset on, up to where a move of some bytes ends. -/
def Rose (positions : List Nat) (offset size : Nat) : Prop :=
  ∃ calls, Rises calls size ∧ positions = calls.map (· + offset)

theorem Rose.rising {positions : List Nat} {offset size : Nat} (rose : Rose positions offset size) :
    positions.Pairwise (· < ·) := by
  obtain ⟨calls, rises, rfl⟩ := rose
  rw [List.pairwise_map]
  exact rises.rising.imp fun below => Nat.add_lt_add_right below offset

def lastOf (positions : List Nat) : Nat := positions.getLast?.getD 0

theorem Rose.last {positions : List Nat} {offset size : Nat} (rose : Rose positions offset size) :
    lastOf positions = if size = 0 then 0 else size + offset := by
  obtain ⟨calls, rises, rfl⟩ := rose
  rw [lastOf, List.getLast?_map, rises.last]
  split_ifs <;> rfl

theorem move_reports {result : Option CopyResult} (full : now.Full) (live : call.dryRun = false)
    (told : call.progress = true) (returned : move now call rel trees = .ok result after) :
    Rose (fileReports now call rel trees) ((result.map CopyResult.resumedAt).getD 0)
      ((result.map CopyResult.size).getD 0) := by
  unfold fileReports
  rcases move_cases returned with ⟨skipped, rfl, -⟩ | ⟨copied, disk, kept, rfl, copying, -⟩
  · rw [skipped]
    exact ⟨[], rises_nil, rfl⟩
  · rw [kept]
    obtain ⟨resuming, spreading, size, digested, checksum, middle, planned, moves, -, rfl, -⟩ :=
      copy_checks live copying
    obtain ⟨calls, rises, shape⟩ := (moved_settles (full rel) rfl rfl (by simp) (plan_cases planned) moves).2
      told
    refine ⟨calls, rises, ?_⟩
    dsimp only
    rw [reports, planned]
    simp only [fileCall, live]
    exact shape

theorem quiet_reports (quiet : call.dryRun = true ∨ call.progress = false) (rel : Path)
    (trees : Trees) : fileReports now call rel trees = [] := by
  unfold fileReports
  split
  · unfold reports
    rcases quiet with dry | deaf
    · rw [if_pos (by simpa [fileCall] using dry)]
    · split_ifs
      · rfl
      · split
        · unfold positions
          rw [if_pos (by simp [fileCall, deaf])]
        · rfl
  · rfl

/-- A file that is continued part-way, with bytes left to move. -/
def Continues (now : TreeCircumstances Pattern) (call : TreeCall Pattern) (trees : Trees)
    (rel : Path) : Prop :=
  call.dryRun = false ∧ call.progress = true ∧ skips now call rel trees = .ok false trees ∧
    ∃ offset content, plan (now.copies rel) (fileCall call rel) trees.disk = .ok (some offset, none) ∧
      0 < offset ∧ call.chunk ≠ 0 ∧ trees.source.get? (call.sourceOf rel) = some content ∧
      offset < content.length

theorem up_to_date_same (same : SameAt call rel trees other) {mode : SyncMode} {skipped : Bool}
    (one : upToDate now call mode rel trees = .ok skipped trees) :
    upToDate now call mode rel other = .ok skipped other := by
  have agree : Agree ⟨call.sourceScheme, (.source, call.sourceOf rel)⟩
      ⟨call.targetScheme, (.target, call.targetOf rel)⟩ trees.disk other.disk := same.agree
  have still : Alike (now.copies rel) (now.copies rel) := ⟨rfl, rfl, rfl⟩
  have digests := digest_of_alike still agree.source
  have others := digest_of_alike still agree.target
  unfold upToDate at one ⊢
  rw [run_bind, run_get] at one ⊢
  dsimp only at one ⊢
  rw [probe_alike still agree.source, probe_alike still agree.target] at one
  cases there : probe (now.copies rel) ⟨call.targetScheme, (.target, call.targetOf rel)⟩ other.disk with
  | none =>
      rw [there] at one
      cases one
      rfl
  | some length =>
      cases here : probe (now.copies rel) ⟨call.sourceScheme, (.source, call.sourceOf rel)⟩ other.disk with
      | none =>
          rw [there, here] at one
          cases one
          rfl
      | some size =>
          rw [there, here] at one
          dsimp only at one ⊢
          by_cases differ : length ≠ size
          · rw [if_pos differ] at one ⊢
            cases one
            rfl
          · rw [if_neg differ] at one ⊢
            cases mode with
            | size | mtime =>
                cases one
                rfl
            | checksum =>
                dsimp only at one ⊢
                split_ifs at one ⊢
                · cases one
                · cases one
                  rw [digests, others]
                  rfl

theorem skips_same (same : SameAt call rel trees other) {skipped : Bool}
    (one : skips now call rel trees = .ok skipped trees) :
    skips now call rel other = .ok skipped other := by
  unfold skips at one ⊢
  cases mode : call.sync with
  | none =>
      simp only [mode] at one ⊢
      cases one
      rfl
  | some mode =>
      simp only [mode] at one ⊢
      exact up_to_date_same same one

theorem Continues.same (same : SameAt call rel trees other) (continues_ : Continues now call trees rel) :
    Continues now call other rel := by
  obtain ⟨live, told, kept, offset, content, planned, positive, room, here, short⟩ := continues_
  have still : Alike (now.copies rel) (now.copies rel) := ⟨rfl, rfl, rfl⟩
  rw [plan_alike still same.agree rfl rfl] at planned
  exact ⟨live, told, skips_same same kept, offset, content, planned, positive, room,
    same.source ▸ here, short⟩

theorem continues_iff {result : Option CopyResult} (full : now.Full) (live : call.dryRun = false)
    (told : call.progress = true) (returned : move now call rel trees = .ok result after) :
    Continues now call trees rel ↔ 0 < (result.map CopyResult.resumedAt).getD 0 ∧
      0 < (result.map CopyResult.size).getD 0 := by
  rcases move_cases returned with ⟨skipped, rfl, -⟩ | ⟨copied, disk, kept, rfl, copying, -⟩
  · refine iff_of_false ?_ (by simp)
    rintro ⟨-, -, kept, -⟩
    rw [skipped] at kept
    cases kept
  · obtain ⟨resuming, spreading, size, digested, checksum, middle, planned, moves, -, rfl, -⟩ :=
      copy_checks live copying
    have settles := (moved_settles (full rel) rfl rfl (by simp) (plan_cases planned) moves).1.size
    simp only [Option.map_some, Option.getD_some]
    rw [settles]
    constructor
    · rintro ⟨-, -, -, offset, content, known, positive, room, here, short⟩
      cases planned.symm.trans known
      refine ⟨positive, ?_⟩
      have held : trees.disk.files (.source, call.sourceOf rel) = some content := here
      rw [remaining, if_neg (by simp [fileCall, room]), held]
      simp only [Option.getD_some, List.length_drop]
      omega
    · rintro ⟨positive, more⟩
      cases resuming with
      | none => exact absurd positive (by simp)
      | some offset =>
          cases plan_cases planned with
          | continues from_ onto there resume =>
              unfold remaining at more
              split_ifs at more with none
              · exact absurd more (by simp)
              · have room : call.chunk ≠ 0 := fun zero => none ⟨rfl, zero⟩
                have held : trees.disk.files (.source, call.sourceOf rel) =
                    trees.source.get? (call.sourceOf rel) := rfl
                dsimp only at more
                rw [held] at more
                cases here : trees.source.get? (call.sourceOf rel) with
                | none => simp [here] at more
                | some content =>
                    rw [here] at more
                    simp only [Option.getD_some, List.length_drop] at more
                    exact ⟨live, told, kept, _, content, planned, positive, room, here, by omega⟩

end File

section Once

variable {fails : Path → Bool} {below : List Path}

theorem files_in_nodup (once : below.Nodup) : (filesIn below).Nodup := by
  apply once.filterMap
  intro path other name here there
  split at here <;> cases here
  split at there <;> cases there
  rfl

theorem descend_nodup (name : Text) (once : below.Nodup) : (descend name below).Nodup := by
  apply once.filterMap
  intro path other rest here there
  split at here
  · split_ifs at here with same
    · cases here
      split at there
      · split_ifs at there with alike
        · cases there
          rw [same, alike]
        · cases there
      · cases there
    · cases here
  · cases here

theorem walk_from_below {depth : Nat} {dir rel : Path}
    (found : rel ∈ walkFrom fails depth dir below) : ∃ path, path ≠ [] ∧ rel = dir ++ path := by
  induction depth generalizing dir below with
  | zero => cases found
  | succ depth induction =>
      rw [walkFrom] at found
      split_ifs at found
      · cases found
      · rcases List.mem_append.mp found with here | deeper
        · obtain ⟨name, -, rfl⟩ := List.mem_map.mp here
          exact ⟨[name], List.cons_ne_nil _ _, rfl⟩
        · obtain ⟨name, -, later⟩ := List.mem_flatMap.mp deeper
          obtain ⟨path, -, rfl⟩ := induction later
          exact ⟨name :: path, List.cons_ne_nil _ _, by simp⟩

theorem walk_from_nodup (depth : Nat) (dir : Path) (once : below.Nodup) :
    (walkFrom fails depth dir below).Nodup := by
  induction depth generalizing dir below with
  | zero => exact List.nodup_nil
  | succ depth induction =>
      rw [walkFrom]
      split_ifs
      · exact List.nodup_nil
      · rw [List.nodup_append']
        refine ⟨?_, ?_, ?_⟩
        · apply (files_in_nodup once).map
          intro name other same
          simpa using same
        · rw [List.nodup_flatMap]
          refine ⟨fun name _ => induction _ (descend_nodup name once), ?_⟩
          refine (List.nodup_dedup _).imp fun apart => ?_
          intro rel here there
          obtain ⟨path, -, rfl⟩ := walk_from_below here
          obtain ⟨other, -, same⟩ := walk_from_below there
          simp only [List.append_assoc, List.append_cancel_left_eq, List.cons_append,
            List.cons.injEq] at same
          exact apart same.1
        · intro rel here there
          obtain ⟨name, -, rfl⟩ := List.mem_map.mp here
          obtain ⟨other, -, later⟩ := List.mem_flatMap.mp there
          obtain ⟨path, some, same⟩ := walk_from_below later
          simp only [List.append_assoc, List.append_cancel_left_eq, List.cons_append,
            List.nil_append, List.cons.injEq] at same
          exact some same.2.symm

theorem wanted_nodup (now : TreeCircumstances Pattern) (call : TreeCall Pattern)
    (trees : Trees) : (wanted now call trees).Nodup :=
  (walk_from_nodup _ _ trees.source.keys_nodup).filter _

end Once

/-- Where a file is: not taken, taken, moved with positions still to be told, or done. -/
inductive Status
  | waiting
  | taken
  | telling (left : List Nat) (result : Option CopyResult)
  | done (result : Option CopyResult)

/-- A call of `move` that was handed to the pool, with what its `report` has seen. -/
structure Future where
  rel : Path
  seen : Nat := 0
  status : Status := .waiting

/-- One call of `progress`: the file it is from, where that file is, and the count told. -/
structure Told where
  rel : Path
  position : Nat
  count : Int

structure Crew where
  trees : Trees
  futures : List Future
  done : Int := 0
  log : List Told := []
  raised : Bool := false

def Status.isWaiting : Status → Bool
  | .waiting => true
  | _ => false

def Status.isBusy : Status → Bool
  | .taken => true
  | .telling _ _ => true
  | _ => false

def Status.isDone : Status → Bool
  | .done _ => true
  | _ => false

def Status.result : Status → Option CopyResult
  | .done result => result
  | _ => none

def Crew.mayTake (workers : Nat) (crew : Crew) (index : Nat) : Bool :=
  (crew.futures.take index).all (fun future => !future.status.isWaiting) &&
    decide ((crew.futures.countP fun future => future.status.isBusy) < workers)

/-- `report`: the delta of one file, counted into the whole. -/
def Crew.report (crew : Crew) (index : Nat) (future : Future) (position : Nat)
    (left : List Nat) (result : Option CopyResult) : Crew where
  trees := crew.trees
  futures := crew.futures.set index { future with seen := position, status := .telling left result }
  done := crew.done + (position - future.seen)
  log := crew.log ++ [⟨future.rel, position, crew.done + (position - future.seen)⟩]
  raised := crew.raised

/-- The next thing done about one of the files. Nothing is said about a crew once a copy
has raised. -/
def Crew.step (now : TreeCircumstances Pattern) (call : TreeCall Pattern) (workers : Nat)
    (index : Nat) (crew : Crew) : Crew :=
  if crew.raised then crew
  else
    match crew.futures[index]? with
    | none => crew
    | some future =>
        match future.status with
        | .waiting =>
            if crew.mayTake workers index then
              { crew with futures := crew.futures.set index { future with status := .taken } }
            else crew
        | .taken =>
            match move now call future.rel crew.trees with
            | .ok result trees =>
                let left := fileReports now call future.rel crew.trees
                { crew with
                  trees := trees
                  futures := crew.futures.set index { future with status := .telling left result } }
            | .error _ trees => { crew with trees := trees, raised := true }
        | .telling (position :: left) result => crew.report index future position left result
        | .telling [] result =>
            { crew with futures := crew.futures.set index { future with status := .done result } }
        | .done _ => crew

def submitted (trees : Trees) (items : List Path) : Crew where
  trees := trees
  futures := items.map fun rel => { rel := rel }

def crewOf (now : TreeCircumstances Pattern) (call : TreeCall Pattern) (workers : Nat)
    (trees : Trees) (schedule : List Nat) : Crew :=
  run (Crew.step now call workers) schedule (submitted trees (wanted now call trees))

def Crew.ended (crew : Crew) : Bool :=
  !crew.raised && crew.futures.all fun future => future.status.isDone

/-- `_in_order`: what it answers, in the order asked. -/
def Crew.results (crew : Crew) : List CopyResult :=
  crew.futures.filterMap fun future => future.status.result

section Crews

variable {now : TreeCircumstances Pattern} {call : TreeCall Pattern} {workers index : Nat}
  {start trees after : Trees} {rel path : Path} {crew : Crew} {future : Future}
  {log : List Told} {told : Told}

def toldOf (log : List Told) (rel : Path) : List Nat :=
  (log.filter fun told => told.rel = rel).map Told.position

/-- The file was moved from what it was at the start, with the rest still to be told. -/
def Went (now : TreeCircumstances Pattern) (call : TreeCall Pattern) (start : Trees)
    (rel : Path) (result : Option CopyResult) (positions : List Nat) : Prop :=
  ∃ before after, SameAt call rel start before ∧ move now call rel before = .ok result after ∧
    positions = fileReports now call rel before

/-- What is true of a file, whatever the others are at. -/
def Future.Stands (now : TreeCircumstances Pattern) (call : TreeCall Pattern)
    (start trees : Trees) (log : List Told) (future : Future) : Prop :=
  match future.status with
  | .waiting | .taken => SameAt call future.rel start trees ∧ toldOf log future.rel = []
  | .telling left result => Went now call start future.rel result (toldOf log future.rel ++ left)
  | .done result => Went now call start future.rel result (toldOf log future.rel)

def lastSum (items : List Path) (log : List Told) : Nat :=
  (items.map fun rel => lastOf (toldOf log rel)).sum

/-- The counts told: they do not fall, and each is the sum of the last positions. -/
structure Tells (items : List Path) (log : List Told) (done : Int) : Prop where
  listed : ∀ told ∈ log, told.rel ∈ items
  rising : (log.map Told.count).Pairwise (· ≤ ·)
  most : ∀ told ∈ log, told.count ≤ done
  last : ∀ told, log.getLast? = some told → told.count = done
  sums : ∀ first told rest, log = first ++ told :: rest →
    told.count = (lastSum items (first ++ [told]) : Int)

def Unmixed (now : TreeCircumstances Pattern) (call : TreeCall Pattern) (trees : Trees) : Prop :=
  ∀ one ∈ wanted now call trees, ∀ two ∈ wanted now call trees, one ≠ two → call.Apart one two

structure Crew.Sound (now : TreeCircumstances Pattern) (call : TreeCall Pattern)
    (start : Trees) (crew : Crew) : Prop where
  full : now.Full
  unmixed : Unmixed now call start
  files : crew.futures.map Future.rel = wanted now call start
  each : ∀ future ∈ crew.futures, future.Stands now call start crew.trees crew.log
  seen : ∀ future ∈ crew.futures, future.seen = lastOf (toldOf crew.log future.rel)
  done : crew.done = (lastSum (wanted now call start) crew.log : Int)
  tells : Tells (wanted now call start) crew.log crew.done

theorem submitted_sound {now : TreeCircumstances Pattern} {call : TreeCall Pattern}
    {trees : Trees} (full : now.Full) (unmixed : Unmixed now call trees) :
    (submitted trees (wanted now call trees)).Sound now call trees where
  full := full
  unmixed := unmixed
  files := by
    rw [submitted, List.map_map]
    exact List.map_id _
  each := by
    intro future member
    obtain ⟨rel, -, rfl⟩ := List.mem_map.mp member
    exact ⟨⟨rfl, rfl⟩, rfl⟩
  seen := by
    intro future member
    obtain ⟨rel, -, rfl⟩ := List.mem_map.mp member
    rfl
  done := by
    have nothing : (fun rel : Path => lastOf (toldOf [] rel)) = fun _ => 0 := rfl
    simp [submitted, lastSum, nothing]
  tells := ⟨nofun, .nil, nofun, nofun, by simp [submitted]⟩

theorem told_of_append (log : List Told) (told : Told) (rel : Path) :
    toldOf (log ++ [told]) rel =
      if told.rel = rel then toldOf log rel ++ [told.position] else toldOf log rel := by
  rw [toldOf, List.filter_append, List.map_append]
  split_ifs with same
  · simp [toldOf, same]
  · simp [toldOf, same]

theorem Future.Stands.other {later : Trees} {longer : List Told}
    (stands : future.Stands now call start trees log) (same : SameAt call future.rel trees later)
    (silent : toldOf longer future.rel = toldOf log future.rel) :
    future.Stands now call start later longer := by
  unfold Future.Stands at stands ⊢
  rw [silent]
  cases status : future.status with
  | waiting | taken =>
      rw [status] at stands
      exact ⟨stands.1.trans same, stands.2⟩
  | telling left result =>
      rw [status] at stands
      exact stands
  | done result =>
      rw [status] at stands
      exact stands

theorem among {first rest : List Future} {other : Future} :
    other ∈ first ++ future :: rest ↔ other = future ∨ other ∈ first ++ rest :=
  List.perm_middle.mem_iff.trans List.mem_cons

/-- A file in a sound crew, between the others, whose paths are taken for other ones. -/
theorem Crew.Sound.at (sound : crew.Sound now call start)
    (found : crew.futures[index]? = some future) :
    ∃ first rest, crew.futures = first ++ future :: rest ∧
      (∀ moved, crew.futures.set index moved = first ++ moved :: rest) ∧
      (∀ other ∈ first ++ rest, other.rel ≠ future.rel ∧ call.Apart other.rel future.rel) := by
  obtain ⟨first, rest, shape, set⟩ := picked found
  refine ⟨first, rest, shape, set, ?_⟩
  have once := wanted_nodup now call start
  have unmixed := sound.unmixed
  rw [← sound.files, shape, List.map_append, List.map_cons, List.nodup_middle, List.nodup_cons,
    ← List.map_append] at once
  rw [Unmixed, ← sound.files, shape] at unmixed
  intro other member
  have different : other.rel ≠ future.rel := fun same => once.1 (same ▸ List.mem_map_of_mem member)
  exact ⟨different, unmixed _ (List.mem_map_of_mem (among.mpr (.inr member))) _
    (List.mem_map_of_mem (among.mpr (.inl rfl))) different⟩

theorem Crew.Sound.replace {later : Trees} {status : Status} (sound : crew.Sound now call start)
    (found : crew.futures[index]? = some future)
    (apart : ∀ path, call.Apart path future.rel → SameAt call path crew.trees later)
    (stands : { future with status := status }.Stands now call start later crew.log) :
    { crew with
      trees := later
      futures := crew.futures.set index { future with status := status } }.Sound now call start := by
  obtain ⟨first, rest, shape, set, others⟩ := sound.at found
  have each := sound.each
  have seen := sound.seen
  have files := sound.files
  rw [shape] at each seen files
  refine ⟨sound.full, sound.unmixed, ?_, ?_, ?_, sound.done, sound.tells⟩
  · rw [← files]
    dsimp only
    rw [set]
    simp
  · dsimp only
    rw [set]
    intro other member
    rcases among.mp member with rfl | here
    · exact stands
    · exact (each other (among.mpr (.inr here))).other (apart _ (others other here).2) rfl
  · dsimp only
    rw [set]
    intro other member
    rcases among.mp member with rfl | here
    · exact seen future (among.mpr (.inl rfl))
    · exact seen other (among.mpr (.inr here))

theorem Went.rising {result : Option CopyResult} {positions : List Nat} (full : now.Full)
    (went : Went now call start rel result positions) : positions.Pairwise (· < ·) := by
  obtain ⟨before, after, -, moved, rfl⟩ := went
  by_cases quiet : call.dryRun = true ∨ call.progress = false
  · rw [quiet_reports quiet]
    exact .nil
  · rw [not_or, Bool.not_eq_true, Bool.not_eq_false] at quiet
    exact (move_reports full quiet.1 quiet.2 moved).rising

theorem last_of_below {earlier left : List Nat} {position : Nat}
    (rising : (earlier ++ position :: left).Pairwise (· < ·)) : lastOf earlier ≤ position := by
  rw [lastOf]
  cases last : earlier.getLast? with
  | none => exact Nat.zero_le _
  | some before =>
      have below := (List.pairwise_append.mp rising).2.2
      exact (below before (List.mem_of_getLast? last) position List.mem_cons_self).le

theorem last_sum_append {items : List Path} (once : items.Nodup) (listed : told.rel ∈ items) :
    lastSum items (log ++ [told]) + lastOf (toldOf log told.rel) =
      lastSum items log + told.position := by
  obtain ⟨first, rest, rfl⟩ := List.append_of_mem listed
  rw [List.nodup_middle, List.nodup_cons] at once
  have others : ∀ rel ∈ first ++ rest, lastOf (toldOf (log ++ [told]) rel) = lastOf (toldOf log rel) := by
    intro rel member
    rw [told_of_append, if_neg]
    rintro rfl
    exact once.1 member
  have before := List.map_congr_left fun rel member => others rel (List.mem_append_left rest member)
  have behind := List.map_congr_left fun rel member => others rel (List.mem_append_right first member)
  have here : lastOf (toldOf (log ++ [told]) told.rel) = told.position := by
    rw [told_of_append, if_pos rfl, lastOf, List.getLast?_append, List.getLast?_singleton]
    rfl
  simp only [lastSum, List.map_append, List.map_cons, List.sum_append, List.sum_cons, before, behind,
    here]
  omega

theorem Tells.next {items : List Path} {done : Int} (tells : Tells items log done)
    (listed : told.rel ∈ items) (higher : done ≤ told.count)
    (sum : told.count = (lastSum items (log ++ [told]) : Int)) :
    Tells items (log ++ [told]) told.count := by
  refine ⟨?_, ?_, ?_, ?_, ?_⟩
  · intro other member
    rcases List.mem_append.mp member with earlier | newest
    · exact tells.listed other earlier
    · rw [List.mem_singleton.mp newest]
      exact listed
  · rw [List.map_append, List.pairwise_append]
    refine ⟨tells.rising, List.pairwise_singleton _ _, ?_⟩
    intro count earlier last newest
    obtain ⟨before, member, rfl⟩ := List.mem_map.mp earlier
    rw [List.mem_singleton.mp newest]
    exact (tells.most before member).trans higher
  · intro other member
    rcases List.mem_append.mp member with earlier | newest
    · exact (tells.most other earlier).trans higher
    · rw [List.mem_singleton.mp newest]
  · intro other newest
    rw [List.getLast?_append, List.getLast?_singleton] at newest
    cases newest
    rfl
  · intro first other rest shape
    rcases List.eq_nil_or_concat rest with rfl | ⟨rest, newest, rfl⟩
    · obtain ⟨rfl, same⟩ := List.append_inj' shape rfl
      cases same
      exact sum
    · rw [List.concat_eq_append, ← List.cons_append, ← List.append_assoc] at shape
      exact tells.sums first other rest (List.append_inj' shape rfl).1

theorem Crew.Sound.report {position : Nat} {left : List Nat} {result : Option CopyResult}
    (sound : crew.Sound now call start) (found : crew.futures[index]? = some future)
    (telling : future.status = .telling (position :: left) result) :
    (crew.report index future position left result).Sound now call start := by
  obtain ⟨first, rest, shape, set, others⟩ := sound.at found
  have each := sound.each
  have seen := sound.seen
  have files := sound.files
  rw [shape] at each seen files
  have went : Went now call start future.rel result (toldOf crew.log future.rel ++ position :: left) := by
    have stands := each future (among.mpr (.inl rfl))
    rw [Future.Stands, telling] at stands
    exact stands
  have saw := seen future (among.mpr (.inl rfl))
  have higher : future.seen ≤ position := saw ▸ last_of_below (went.rising sound.full)
  have listed : future.rel ∈ wanted now call start := by
    rw [← files]
    exact List.mem_map_of_mem (among.mpr (.inl rfl))
  have silent : ∀ told : Told, told.rel = future.rel → ∀ other ∈ first ++ rest,
      toldOf (crew.log ++ [told]) other.rel = toldOf crew.log other.rel := by
    intro told same other member
    rw [told_of_append, if_neg (same ▸ (others other member).1.symm)]
  have sum : crew.done + (position - future.seen : Int) =
      (lastSum (wanted now call start) (crew.log ++
        [⟨future.rel, position, crew.done + (position - future.seen)⟩]) : Int) := by
    have moved := @last_sum_append crew.log
      ⟨future.rel, position, crew.done + (position - future.seen)⟩ _
      (wanted_nodup now call start) listed
    have done := sound.done
    dsimp only at moved
    rw [← saw] at moved
    omega
  unfold Crew.report
  refine ⟨sound.full, sound.unmixed, ?_, ?_, ?_, sum,
    sound.tells.next listed (by dsimp only; omega) sum⟩
  · rw [← files]
    dsimp only
    rw [set]
    simp
  · dsimp only
    rw [set]
    intro other member
    rcases among.mp member with rfl | here
    · rw [Future.Stands]
      dsimp only
      rw [told_of_append, if_pos rfl, List.append_assoc]
      exact went
    · exact (each other (among.mpr (.inr here))).other ⟨rfl, rfl⟩ (silent _ rfl other here)
  · dsimp only
    rw [set]
    intro other member
    rcases among.mp member with rfl | here
    · dsimp only
      rw [told_of_append, if_pos rfl, lastOf, List.getLast?_append, List.getLast?_singleton]
      rfl
    · rw [silent _ rfl other here]
      exact seen other (among.mpr (.inr here))

theorem Crew.Sound.step (sound : crew.Sound now call start) (workers index : Nat) :
    (crew.step now call workers index).Sound now call start ∨
      (crew.step now call workers index).raised = true := by
  unfold Crew.step
  by_cases raised : crew.raised = true
  · rw [if_pos raised]
    exact .inr raised
  rw [if_neg raised]
  cases found : crew.futures[index]? with
  | none => exact .inl sound
  | some future =>
      have stands := sound.each future (List.mem_of_getElem? found)
      rw [Future.Stands] at stands
      dsimp only
      cases status : future.status with
      | waiting =>
          rw [status] at stands
          dsimp only
          split_ifs
          · exact .inl (sound.replace found (fun _ _ => ⟨rfl, rfl⟩) stands)
          · exact .inl sound
      | taken =>
          rw [status] at stands
          dsimp only
          cases moved : move now call future.rel crew.trees with
          | ok result later =>
              refine .inl (sound.replace found (fun path apart => move_frame moved apart) ?_)
              rw [Future.Stands]
              dsimp only
              rw [stands.2]
              exact ⟨_, _, stands.1, moved, rfl⟩
          | error => exact .inr rfl
      | telling left result =>
          cases left with
          | nil =>
              rw [status] at stands
              dsimp only at stands
              rw [List.append_nil] at stands
              exact .inl (sound.replace found (fun _ _ => ⟨rfl, rfl⟩) stands)
          | cons position left => exact .inl (sound.report found status)
      | done result => exact .inl sound

theorem crew_of_sound {schedule : List Nat} (full : now.Full) (unmixed : Unmixed now call start)
    (going : (crewOf now call workers start schedule).raised = false) :
    (crewOf now call workers start schedule).Sound now call start := by
  have either := run_invariant (Crew.step now call workers) (fun _ => True)
    (fun crew => crew.Sound now call start ∨ crew.raised = true)
    (fun crew index _ kept => by
      rcases kept with sound | raised
      · exact sound.step workers index
      · rw [Crew.step, if_pos raised]
        exact .inr raised)
    schedule _ (fun _ _ => trivial) (.inl (submitted_sound full unmixed))
  exact either.resolve_right (Bool.eq_false_iff.mp going)

def Status.ahead : Status → Nat
  | .waiting => 2
  | .taken => 1
  | _ => 0

def Status.behind : Status → Nat
  | .telling left _ => left.length + 1
  | _ => 0

def Crew.ahead (crew : Crew) : Nat := (crew.futures.map fun future => future.status.ahead).sum

def Crew.behind (crew : Crew) : Nat := (crew.futures.map fun future => future.status.behind).sum

def Crew.Less (crew other : Crew) : Prop :=
  crew.ahead < other.ahead ∨ crew.ahead = other.ahead ∧ crew.behind < other.behind

theorem Crew.less_of_set {moved : Future} {later : Crew}
    (found : crew.futures[index]? = some future) (same : later.futures = crew.futures.set index moved)
    (further : moved.status.ahead < future.status.ahead ∨
      moved.status.ahead = future.status.ahead ∧ moved.status.behind < future.status.behind) :
    later.Less crew := by
  obtain ⟨first, rest, shape, set⟩ := picked found
  unfold Crew.Less Crew.ahead Crew.behind
  rw [same, set, shape]
  simp only [List.map_append, List.map_cons, List.sum_append, List.sum_cons]
  omega

theorem Crew.busy_goes_on (going : crew.raised = false) (found : crew.futures[index]? = some future)
    (busy : future.status.isBusy = true) : (crew.step now call workers index).raised = true ∨
      (crew.step now call workers index).Less crew := by
  unfold Crew.step
  rw [if_neg (Bool.eq_false_iff.mp going), found]
  dsimp only
  cases status : future.status with
  | waiting | done =>
      rw [status] at busy
      cases busy
  | taken =>
      dsimp only
      cases move now call future.rel crew.trees with
      | ok result later =>
          refine .inr (less_of_set found rfl (.inl ?_))
          rw [status]
          exact Nat.zero_lt_one
      | error => exact .inl rfl
  | telling left result =>
      cases left with
      | nil =>
          refine .inr (less_of_set found rfl (.inr ⟨?_, ?_⟩))
          · rw [status]
            rfl
          · rw [status]
            exact Nat.zero_lt_one
      | cons position left =>
          refine .inr (less_of_set found rfl (.inr ⟨?_, ?_⟩))
          · rw [status]
            rfl
          · rw [status]
            exact Nat.lt_succ_self _

theorem Crew.idle_goes_on (positive : 0 < workers) (going : crew.raised = false)
    (idle : ∀ future ∈ crew.futures, future.status.isBusy = false)
    (waits : ∃ future ∈ crew.futures, future.status.isWaiting = true) :
    ∃ index, (crew.step now call workers index).Less crew := by
  obtain ⟨future, known⟩ : ∃ future, crew.futures.find? (fun future => future.status.isWaiting) =
      some future := by
    rw [← Option.isSome_iff_exists, List.find?_isSome]
    exact waits
  obtain ⟨waiting, first, rest, shape, before⟩ := List.find?_eq_some_iff_append.mp known
  have found : crew.futures[first.length]? = some future := by
    rw [shape, List.getElem?_append_right (Nat.le_refl _), Nat.sub_self]
    rfl
  have may : crew.mayTake workers first.length = true := by
    have nobody : (crew.futures.countP fun future => future.status.isBusy) = 0 := by
      rw [List.countP_eq_zero]
      intro other member
      rw [idle other member]
      exact Bool.false_ne_true
    rw [mayTake, nobody, shape, List.take_left, Bool.and_eq_true, List.all_eq_true]
    exact ⟨before, decide_eq_true positive⟩
  refine ⟨first.length, ?_⟩
  unfold Crew.step
  rw [if_neg (Bool.eq_false_iff.mp going), found]
  dsimp only
  cases status : future.status with
  | waiting =>
      dsimp only
      rw [if_pos may]
      refine less_of_set found rfl (.inl ?_)
      rw [status]
      exact Nat.one_lt_two
  | taken | telling | done =>
      rw [status] at waiting
      cases waiting

theorem Crew.goes_on (positive : 0 < workers) (going : crew.raised = false)
    (open_ : crew.ended = false) : ∃ index, (crew.step now call workers index).raised = true ∨
      (crew.step now call workers index).Less crew := by
  by_cases busy : ∃ future ∈ crew.futures, future.status.isBusy = true
  · obtain ⟨future, member, busy⟩ := busy
    obtain ⟨index, found⟩ := List.mem_iff_getElem?.mp member
    exact ⟨index, busy_goes_on going found busy⟩
  · have idle : ∀ future ∈ crew.futures, future.status.isBusy = false := by
      intro future member
      exact Bool.eq_false_iff.mpr fun working => busy ⟨future, member, working⟩
    have waits : ∃ future ∈ crew.futures, future.status.isWaiting = true := by
      rw [Crew.ended, going, Bool.not_false, Bool.true_and, List.all_eq_false] at open_
      obtain ⟨future, member, unfinished⟩ := open_
      refine ⟨future, member, ?_⟩
      have still := idle future member
      cases status : future.status with
      | waiting => rfl
      | taken | telling =>
          rw [status] at still
          cases still
      | done =>
          rw [status] at unfinished
          exact absurd rfl unfinished
    obtain ⟨index, less⟩ := idle_goes_on positive going idle waits
    exact ⟨index, .inr less⟩

theorem Crew.ends (now : TreeCircumstances Pattern) (call : TreeCall Pattern)
    (positive : 0 < workers) (crew : Crew) :
    ∃ more, (run (Crew.step now call workers) more crew).raised = true ∨
      (run (Crew.step now call workers) more crew).ended = true := by
  by_cases raised : crew.raised = true
  · exact ⟨[], .inl raised⟩
  by_cases ended : crew.ended = true
  · exact ⟨[], .inr ended⟩
  have further : ∃ index, (crew.step now call workers index).raised = true ∨
      (crew.step now call workers index).Less crew :=
    goes_on positive (Bool.eq_false_iff.mpr raised) (Bool.eq_false_iff.mpr ended)
  obtain ⟨index, raises | less⟩ := further
  · exact ⟨[index], .inl raises⟩
  · obtain ⟨more, comes⟩ := Crew.ends now call positive (crew.step now call workers index)
    exact ⟨index :: more, comes⟩
termination_by (crew.ahead, crew.behind)
decreasing_by
  rcases less with further | ⟨same, further⟩
  · exact .left _ _ further
  · rw [same]
    exact .right _ further

end Crews

section One

variable {now alone : TreeCircumstances Pattern} {call : TreeCall Pattern}
  {trees after : Trees}

theorem moves_each {rels : List Path} {done : List (Path × Option CopyResult)}
    (apart : rels.Pairwise fun one two => call.Apart two one)
    (returned : moves now call rels trees = .ok done after) :
    done.map Prod.fst = rels ∧ ∀ entry ∈ done, ∃ before later, SameAt call entry.1 trees before ∧
      move now call entry.1 before = .ok entry.2 later := by
  induction rels generalizing trees done with
  | nil =>
      cases returned
      exact ⟨rfl, nofun⟩
  | cons rel rest induction =>
      rw [moves] at returned
      obtain ⟨first, middle, moving, later⟩ := bind_returns returned
      obtain ⟨others, last, rest_, ends⟩ := bind_returns later
      cases ends
      rw [List.pairwise_cons] at apart
      obtain ⟨listed, each⟩ := induction apart.2 rest_
      refine ⟨by rw [List.map_cons, listed], ?_⟩
      intro entry member
      rcases List.mem_cons.mp member with rfl | behind
      · exact ⟨_, _, ⟨rfl, rfl⟩, moving⟩
      · obtain ⟨before, later, same, moved⟩ := each entry behind
        refine ⟨before, later, (move_frame moving ?_).trans same, moved⟩
        exact apart.1 entry.1 (listed ▸ List.mem_map_of_mem behind)

theorem find_entry {entries : List (Path × Option CopyResult)}
    (once : (entries.map Prod.fst).Nodup) {entry : Path × Option CopyResult}
    (member : entry ∈ entries) : (entries.find? fun other => other.1 = entry.1) = some entry := by
  induction entries with
  | nil => cases member
  | cons head rest induction =>
      rw [List.map_cons, List.nodup_cons] at once
      rcases List.mem_cons.mp member with rfl | behind
      · exact List.find?_cons_of_pos (decide_eq_true rfl)
      · rw [List.find?_cons_of_neg, induction once.2 behind]
        intro same
        exact once.1 (of_decide_eq_true same ▸ List.mem_map_of_mem behind)

/-- What a single worker returns: what its moves come to, in the order of the walk. -/
theorem copy_tree_single {results : List CopyResult} (unmixed : Unmixed now call trees)
    (returned : copyTree now { call with workers := some 1 } trees = .ok results after) :
    ∃ done : List (Path × Option CopyResult), done.map Prod.fst = wanted now call trees ∧
      results = done.filterMap Prod.snd ∧
      ∀ entry ∈ done, ∃ before later, SameAt call entry.1 trees before ∧
        move now call entry.1 before = .ok entry.2 later := by
  have once := wanted_nodup now call trees
  unfold copyTree at returned
  rw [run_bind, run_get] at returned
  dsimp only at returned
  obtain ⟨done, middle, moving, rest⟩ := bind_returns returned
  obtain ⟨⟨⟩, last, -, ends⟩ := bind_returns rest
  cases ends
  rw [if_neg (by simp)] at moving
  have apart : (wanted now call trees).Pairwise fun one two => call.Apart two one :=
    List.Pairwise.imp_of_mem (fun here there other => unmixed _ there _ here other.symm) once
  obtain ⟨listed, each⟩ := moves_each (apart.imp fun both => ⟨both.source, both.target⟩) moving
  refine ⟨done, listed, ?_, fun entry member => ?_⟩
  on_goal 2 =>
    obtain ⟨before, later, same, moved⟩ := each entry member
    exact ⟨before, later, ⟨same.source, same.target⟩, moved⟩
  have same : wanted now { call with workers := some 1 } trees = done.map Prod.fst := listed.symm
  rw [same, List.filterMap_map]
  apply List.filterMap_congr
  intro entry member
  dsimp only [Function.comp]
  rw [find_entry (listed ▸ once) member]
  rfl

theorem wanted_alike (alike : AlikeTrees now alone) :
    wanted now call trees = wanted alone call trees := by
  have chosen : selected now call = selected alone call := by
    funext rel
    rw [selected, selected, alike.fnmatch]
  rw [wanted, wanted, alike.fails, chosen]

end One

section Many

variable {now alone : TreeCircumstances Pattern} {call : TreeCall Pattern} {workers : Nat}
  {trees after : Trees} {crew : Crew}

def Crew.outcomes (crew : Crew) : List (Path × Option CopyResult) :=
  crew.futures.map fun future => (future.rel, future.status.result)

theorem Crew.Sound.outcomes (sound : crew.Sound now call trees) (ended : crew.ended = true) :
    crew.outcomes.map Prod.fst = wanted now call trees ∧
      ∀ entry ∈ crew.outcomes, Went now call trees entry.1 entry.2 (toldOf crew.log entry.1) := by
  constructor
  · rw [Crew.outcomes, List.map_map, ← sound.files]
    rfl
  · intro entry member
    obtain ⟨future, listed, rfl⟩ := List.mem_map.mp member
    have stands := sound.each future listed
    rw [Crew.ended, Bool.and_eq_true, List.all_eq_true] at ended
    have done := ended.2 future listed
    rw [Future.Stands] at stands
    cases status : future.status with
    | done result =>
        rw [status] at stands
        exact stands
    | waiting | taken | telling =>
        rw [status] at done
        cases done

theorem entries_eq {first second : List (Path × Option CopyResult)}
    (listed : first.map Prod.fst = second.map Prod.fst)
    (each : ∀ entry ∈ first, ∀ other ∈ second, entry.1 = other.1 → entry.2 = other.2) :
    first = second := by
  induction first generalizing second with
  | nil => exact (List.map_eq_nil_iff.mp listed.symm).symm
  | cons entry rest induction =>
      cases second with
      | nil => cases listed
      | cons other others =>
          rw [List.map_cons, List.map_cons, List.cons.injEq] at listed
          have same : entry = other :=
            Prod.ext listed.1 (each entry List.mem_cons_self other List.mem_cons_self listed.1)
          have behind := induction listed.2 fun one member two there =>
            each one (List.mem_cons_of_mem _ member) two (List.mem_cons_of_mem _ there)
          rw [same, behind]

theorem sum_sizes (entries : List (Path × Option CopyResult)) :
    ((entries.filterMap Prod.snd).map CopyResult.size).sum =
      (entries.map fun entry => (entry.2.map CopyResult.size).getD 0).sum := by
  induction entries with
  | nil => rfl
  | cons entry rest induction =>
      obtain ⟨rel, - | result⟩ := entry
      · simpa using induction
      · simpa using induction

def movedBy (results : List CopyResult) : Nat := (results.map CopyResult.size).sum

/-- The answer of many workers is the one of a single worker, and the counts told on the
way are what was moved so far. -/
structure AsOne (items : List Path) (crew : Crew) (results : List CopyResult) :
    Prop where
  same : crew.results = results
  rising : (crew.log.map Told.count).Pairwise (· ≤ ·)
  sums : ∀ first told rest, crew.log = first ++ told :: rest →
    told.count = (lastSum items (first ++ [told]) : Int)
  last : ∀ told, crew.log.getLast? = some told → told.count = (movedBy results : Int)

/-- A file is told to have moved at least what it moved, and more than that exactly when
it was continued. -/
theorem Went.counts {rel : Path} {result : Option CopyResult} {positions : List Nat}
    (full : now.Full) (live : call.dryRun = false) (told : call.progress = true)
    (went : Went now call trees rel result positions) :
    (result.map CopyResult.size).getD 0 ≤ lastOf positions ∧
      (Continues now call trees rel ↔ (result.map CopyResult.size).getD 0 < lastOf positions) := by
  obtain ⟨before, after, same, moved, rfl⟩ := went
  have here : Continues now call trees rel ↔ Continues now call before rel :=
    ⟨Continues.same same, Continues.same same.symm⟩
  rw [here, continues_iff full live told moved, (move_reports full live told moved).last]
  split_ifs <;> omega

theorem sums_agree_iff {entries : List (Path × Option CopyResult)}
    {moved counted : Path × Option CopyResult → Nat}
    (most : ∀ entry ∈ entries, moved entry ≤ counted entry) :
    (entries.map counted).sum = (entries.map moved).sum ↔
      ∀ entry ∈ entries, ¬ moved entry < counted entry := by
  constructor
  · intro same entry member less
    have more := List.sum_lt_sum moved counted most ⟨entry, member, less⟩
    omega
  · intro equal
    congr 1
    apply List.map_congr_left
    intro entry member
    have := most entry member
    have := equal entry member
    omega

/-- What was counted in the end is what was moved exactly when no file was continued. -/
theorem Crew.Sound.counted (live : call.dryRun = false) (told : call.progress = true)
    (sound : crew.Sound now call trees) (ended : crew.ended = true) :
    crew.done = (movedBy crew.results : Int) ↔
      ∀ rel ∈ wanted now call trees, ¬ Continues now call trees rel := by
  obtain ⟨listed, each⟩ := sound.outcomes ended
  have results : crew.results = crew.outcomes.filterMap Prod.snd := by
    rw [Crew.results, Crew.outcomes, List.filterMap_map]
    rfl
  have most : ∀ entry ∈ crew.outcomes, (entry.2.map CopyResult.size).getD 0 ≤
      lastOf (toldOf crew.log entry.1) := fun entry member => ((each entry member).counts sound.full live told).1
  rw [sound.done, results, movedBy, sum_sizes, lastSum, ← listed, List.map_map, Nat.cast_inj]
  refine (sums_agree_iff most).trans ?_
  rw [List.forall_mem_map]
  refine forall₂_congr fun entry member => ?_
  rw [((each entry member).counts sound.full live told).2]

theorem Crew.Sound.silent (quiet : call.dryRun = true ∨ call.progress = false)
    (sound : crew.Sound now call trees) (ended : crew.ended = true) : crew.log = [] := by
  obtain ⟨listed, each⟩ := sound.outcomes ended
  rw [List.eq_nil_iff_forall_not_mem]
  intro told member
  obtain ⟨entry, known, same⟩ := List.mem_map.mp (listed ▸ sound.tells.listed told member)
  obtain ⟨before, after, -, -, reported⟩ := each entry known
  rw [quiet_reports quiet, toldOf, List.map_eq_nil_iff, List.filter_eq_nil_iff] at reported
  exact reported told member (decide_eq_true same.symm)

theorem Crew.Sound.loud {rel : Path} (sound : crew.Sound now call trees)
    (ended : crew.ended = true) (member : rel ∈ wanted now call trees)
    (continues_ : Continues now call trees rel) : crew.log ≠ [] := by
  intro silent
  obtain ⟨listed, each⟩ := sound.outcomes ended
  obtain ⟨entry, known, rfl⟩ := List.mem_map.mp (listed ▸ member)
  have more := ((each entry known).counts sound.full continues_.1 continues_.2.1).2.mp continues_
  rw [silent] at more
  exact absurd more (Nat.not_lt_zero _)

theorem Crew.Sound.results_alone {results : List CopyResult} (alike : AlikeTrees now alone)
    (whole : alone.Full)
    (sound : crew.Sound now call trees) (ended : crew.ended = true)
    (single : copyTree alone { call with workers := some 1 } trees = .ok results after) :
    crew.results = results := by
  obtain ⟨listed, each⟩ := sound.outcomes ended
  have unmixed : Unmixed alone call trees := by
    rw [Unmixed, ← wanted_alike alike]
    exact sound.unmixed
  obtain ⟨done, found, rfl, moved⟩ := copy_tree_single unmixed single
  rw [← wanted_alike alike, ← listed] at found
  have same : crew.outcomes = done := by
    refine entries_eq found.symm fun entry member other there equal => ?_
    obtain ⟨before, after, kept, went, -⟩ := each entry member
    obtain ⟨start, later, still, goes⟩ := moved other there
    rw [← equal] at still goes
    exact move_alike alike sound.full whole (kept.symm.trans still) went goes
  rw [← same, Crew.results, Crew.outcomes, List.filterMap_map]
  rfl

def TreeCall.count (call : TreeCall Pattern) : Nat := call.workers.getD call.parallelFiles

theorem unmixed_plain (plain : ∀ rel ∈ wanted now call trees,
    call.sourceOf rel = rel ∧ call.targetOf rel = rel) : Unmixed now call trees := by
  intro one here two there other
  constructor
  · rw [(plain one here).1, (plain two there).1]
    exact other
  · rw [(plain one here).2, (plain two there).2]
    exact other

end Many

def pair (first second : Bytes) : Dict Path Bytes where
  entries := [([str "a"], first), ([str "b"], second)]
  unique := by
    have apart : [[str "a"], [str "b"]].Nodup := by decide
    exact apart

def listening (resume : Bool) : TreeCall Unit where
  sourceScheme := .local_
  targetScheme := .local_
  chunk := 4
  inFlight := 1
  parallelChunks := 1
  verifyChecksums := false
  parallelFiles := 1
  workers := some 2
  progress := true
  resume := resume

def crossing : List Nat := [0, 1, 1, 0, 1, 0, 0, 1]

abbrev quiet : TreeCircumstances Unit := still fun _ _ => false

end XRootDClient.Copy
