import XRootDClient.Copy.Tree

/-!
# What a copy reports

The positions a copy between two files calls `progress` with: they rise, and the last
of them is where the copy ends, counted from the beginning of the file. What a copy
that returns comes to does not depend on how much is read at a time or on the order
its threads go in.
-/

set_option autoImplicit false

namespace XRootDClient.Copy

open Lib Lib.BigEndian Lib.Extent Lib.Run Lib.Stateful Lib.Tiling

section Reports

variable {Name : Type} [DecidableEq Name] (now : Circumstances Name)

/-- What a transfer that returns has called `progress` with. One that continues says
where in the file it is, as `_shifted` has it. -/
def positions (call : Call Name) (resuming : Option Nat) (spreading : Option (Nat × Nat))
    (disk : Disk Name) : List Nat :=
  if !call.progress then []
  else
    match spreading, call.source, call.target with
    | some (workers, size), .url source, .url target =>
        let transfer : Transfer :=
          ⟨(Source.url source).held (opened target disk), size, call.chunk, call.progress⟩
        ((launch (spans size workers)).after transfer now.picks).shared.calls.map Prod.fst
    | _, _, _ =>
        match streamed now call resuming disk with
        | .ok sink _ => sink.calls.map fun made => made.1 + resuming.getD 0
        | .error _ _ => []

def reports (call : Call Name) (disk : Disk Name) : List Nat :=
  if call.dryRun then []
  else
    match plan now call disk with
    | .ok (resuming, spreading) => positions now call resuming spreading disk
    | .error _ => []

end Reports

/-- Positions that rise to where the count stands; none as long as nothing is counted. -/
structure Rises (calls : List Nat) (done : Nat) : Prop where
  rising : calls.Pairwise (· < ·)
  most : ∀ position ∈ calls, position ≤ done
  last : calls.getLast? = if done = 0 then none else some done

theorem rises_nil : Rises [] 0 :=
  ⟨.nil, nofun, rfl⟩

theorem Rises.next {calls : List Nat} {done more : Nat} (rises : Rises calls done)
    (some : 0 < more) : Rises (calls ++ [done + more]) (done + more) := by
  refine ⟨?_, ?_, ?_⟩
  · rw [List.pairwise_append]
    refine ⟨rises.rising, List.pairwise_singleton _ _, fun earlier member later last => ?_⟩
    rw [List.mem_singleton.mp last]
    have := rises.most earlier member
    omega
  · intro position member
    rcases List.mem_append.mp member with earlier | last
    · have := rises.most position earlier
      omega
    · rw [List.mem_singleton.mp last]
  · rw [List.getLast?_append, List.getLast?_singleton, if_neg (by omega)]
    rfl

theorem drain_rises {source : Bytes} {chunk : Nat} {answers : Answers} {takes : Takes}
    {total : Option Nat} {fuel asked position : Nat} {sink out : Sink}
    (drained : drain takes total (script source chunk answers fuel asked position) sink = some out)
    (rises : Rises (sink.calls.map Prod.fst) sink.done) :
    Rises (out.calls.map Prod.fst) out.done := by
  induction fuel generalizing asked position sink with
  | zero =>
      cases drained
      exact rises
  | succ fuel induction =>
      rw [script] at drained
      cases answer : answers asked with
      | none =>
          rw [answer] at drained
          cases drained
      | some count =>
          rw [answer] at drained
          dsimp only at drained
          generalize filled : fill source position chunk count = piece at drained
          cases none : piece.isEmpty with
          | true =>
              rw [none] at drained
              cases drained
              exact rises
          | false =>
              rw [none, if_neg (by simp), drain, Option.bind_eq_some_iff] at drained
              obtain ⟨middle, taken, rest⟩ := drained
              obtain ⟨room, -, rfl⟩ := take_some taken
              apply induction rest
              dsimp only
              rw [List.map_append]
              exact rises.next (Ahead.fill_some filled none).2

theorem Shared.Counts.rises {size : Nat} {shared : Shared} (counts : shared.Counts size) :
    Rises (shared.calls.map Prod.fst) shared.reported := by
  refine ⟨counts.rising, ?_, ?_⟩
  · intro position member
    obtain ⟨made, listed, rfl⟩ := List.mem_map.mp member
    exact counts.most made listed
  · rw [List.getLast?_map, counts.last]
    split_ifs <;> rfl

theorem drain_no_failure {source : Bytes} {chunk : Nat} {answers : Answers} {takes : Takes}
    {total : Option Nat} {fuel asked position : Nat} {sink out : Sink}
    (drained : drain takes total (script source chunk answers fuel asked position) sink =
      some out) : .failure ∉ script source chunk answers fuel asked position := by
  induction fuel generalizing asked position sink with
  | zero => simp [script]
  | succ fuel induction =>
      rw [script] at drained ⊢
      cases answer : answers asked with
      | none =>
          rw [answer] at drained
          cases drained
      | some count =>
          rw [answer] at drained
          dsimp only at drained ⊢
          split_ifs at drained ⊢
          · simp
          · rw [drain, Option.bind_eq_some_iff] at drained
            obtain ⟨middle, -, rest⟩ := drained
            simp [induction rest]

section Settled

variable {Name : Type} [DecidableEq Name] {now alone : Circumstances Name} {call : Call Name}
  {disk other after later : Disk Name} {source target : Url Name} {resuming : Option Nat}
  {spreading : Option (Nat × Nat)}

/-- The bytes a transfer moves: what the source holds behind the offset. A stream with
no room in its chunks moves none. -/
def remaining (call : Call Name) (source : Url Name) (resuming : Option Nat)
    (spreading : Option (Nat × Nat)) (disk : Disk Name) : Bytes :=
  if spreading = none ∧ call.chunk = 0 then []
  else ((disk.files source.name).getD []).drop (resuming.getD 0)

def landed (call : Call Name) (source target : Url Name) (resuming : Option Nat)
    (spreading : Option (Nat × Nat)) (disk : Disk Name) : Bytes :=
  match resuming with
  | none => remaining call source resuming spreading disk
  | some offset => patch 0 ((disk.files target.name).getD []) offset
      (remaining call source resuming spreading disk)

/-- Every read that does not raise gives something until the source has no more. -/
structure Circumstances.Full (now : Circumstances Name) : Prop where
  answers : ∀ asked count, now.answers asked = some count → 0 < count
  picks : ∀ pick ∈ now.picks, pick.2 ≠ some 0

omit [DecidableEq Name] in
theorem given_whole {held : Bytes} {start : Nat} {sink out : Sink} {takes : Takes}
    (full : now.Full)
    (pumped : pump held start call.chunk now.answers takes none sink = some out) :
    given (script held call.chunk now.answers (held.length - start + 1) 0 start) =
      if call.chunk = 0 then [] else held.drop start := by
  have whole := drain_no_failure pumped
  split_ifs with none
  · rw [none] at whole ⊢
    rw [script] at whole ⊢
    cases answer : now.answers 0 with
    | none => rfl
    | some count =>
        have nothing : fill held start 0 count = [] := by
          rw [fill, Nat.min_zero, fetch, List.take_zero]
        dsimp only
        rw [nothing]
        rfl
  · exact given_script_all (by omega) full.answers 0 start (by omega) whole

/-- A transfer from one file to another that returns. -/
structure Settles (call : Call Name) (source target : Url Name) (resuming : Option Nat)
    (spreading : Option (Nat × Nat)) (before : Disk Name) (size : Nat) (digested : Bytes)
    (after : Disk Name) : Prop where
  size : size = (remaining call source resuming spreading before).length
  digested : digested =
    if spreading = none then remaining call source resuming spreading before else []
  target : after.files target.name = some (landed call source target resuming spreading before)
  source : after.files source.name = before.files source.name

theorem streamed_settles {sink : Sink} (full : now.Full) (from_ : call.source = .url source)
    (onto : call.target = .url target) (apart : source.name ≠ target.name)
    (streams : Streams now call disk resuming sink after) :
    Settles call source target resuming none disk sink.done sink.digested after ∧
      Rises (sink.calls.map Prod.fst) sink.done := by
  have held : ∀ disk : Disk Name, call.source.held disk = (disk.files source.name).getD [] := by
    intro disk
    rw [from_]
    rfl
  cases streams with
  | given stream => cases onto.symm.trans stream
  | @written url sink known pumped =>
      cases onto.symm.trans known
      have same : call.source.held (opened target disk) = (disk.files source.name).getD [] := by
        rw [held, opened_other apart]
      rw [same] at pumped
      have gives := given_whole full pumped
      have counts := drain_counts pumped
      have stored := drain_whole pumped (drain_takes_all (takes_chunks onto) pumped)
      rw [gives] at counts stored
      simp only [Nat.zero_add, List.nil_append] at counts
      refine ⟨⟨?_, ?_, ?_, ?_⟩, drain_rises pumped rises_nil⟩
      · rw [counts.1, remaining, List.drop_zero]
        simp
      · rw [counts.2, remaining, List.drop_zero]
        simp
      · have fresh := patch_end (0 : UInt8) [] (remaining call source none none disk)
        rw [store_same, stored, landed]
        simpa [remaining] using fresh
      · rw [store_other apart, opened_other apart]
  | @continued url offset content sink known there pumped =>
      cases onto.symm.trans known
      rw [held] at pumped
      have gives := given_whole full pumped
      have counts := drain_counts pumped
      have stored := drain_whole pumped (drain_takes_all (takes_chunks onto) pumped)
      rw [gives] at counts stored
      simp only [Nat.zero_add, List.nil_append] at counts
      refine ⟨⟨?_, ?_, ?_, ?_⟩, drain_rises pumped rises_nil⟩
      · rw [counts.1, remaining]
        simp
      · rw [counts.2, remaining]
        simp
      · rw [store_same, stored, landed, remaining, there]
        simp
      · rw [store_other apart]

theorem idle_unreported {workers : List Worker} (done : ∀ worker ∈ workers, worker.phase = .done) :
    (workers.map Worker.unreported).sum = 0 := by
  induction workers with
  | nil => rfl
  | cons worker rest induction =>
      rw [List.forall_mem_cons] at done
      rw [List.map_cons, List.sum_cons, induction done.2, Worker.unreported, done.1]

theorem in_parallel_settles {workers count : Nat} {content : Bytes} (full : now.Full)
    (apart : source.name ≠ target.name) (here : disk.files source.name = some content)
    (positive : 0 < call.chunk) (working : 0 < workers) (some_ : 0 < content.length)
    (returned : inParallel now call source target workers content.length disk = .ok count after) :
    Settles call source target none (some (workers, content.length)) disk count [] after ∧
      (call.progress = true → Rises (((launch (spans content.length workers)).after
        ⟨(Source.url source).held (opened target disk), content.length, call.chunk, call.progress⟩
        now.picks).shared.calls.map Prod.fst) count) := by
  obtain ⟨finished, rfl, rfl⟩ := in_parallel_returns returned
  have whole : (Source.url source).held (opened target disk) = content := by
    rw [Source.held, opened_other apart, here]
    rfl
  rw [whole] at finished ⊢
  have tiles := (spans_tile some_ working).2
  have sound := (@launch_sound ⟨content, content.length, call.chunk, call.progress⟩ _ tiles).after
    positive tiles (fed_some full.picks)
  obtain ⟨stored, moved, -⟩ := sound.finish tiles finished
  have all : remaining call source none (some (workers, content.length)) disk = content := by
    rw [remaining, here]
    simp
  refine ⟨⟨?_, rfl, ?_, ?_⟩, ?_⟩
  · rw [all, moved]
  · rw [store_same, landed, all, stored]
  · rw [store_other apart, opened_other apart]
  · intro progress
    have busy : ∀ worker ∈ ((launch (spans content.length workers)).after
        ⟨content, content.length, call.chunk, call.progress⟩ now.picks).workers,
        worker.phase = .done := by
      intro worker member
      exact of_decide_eq_true (List.all_eq_true.mp finished worker member)
    have counted := sound.counted progress (fun worker member failed => by
      rw [busy worker member] at failed
      cases failed)
    have quiet : (((launch (spans content.length workers)).after
        ⟨content, content.length, call.chunk, call.progress⟩ now.picks).workers.map
        Worker.unreported).sum = 0 := by
      apply idle_unreported
      exact busy
    rw [quiet, Nat.add_zero] at counted
    rw [← counted]
    exact sound.counts.rises

theorem moved_settles {size : Nat} {digested : Bytes} (full : now.Full) (from_ : call.source = .url source)
    (onto : call.target = .url target) (apart : source.name ≠ target.name)
    (planned : Planned now call disk resuming spreading)
    (returned : moved now call resuming spreading disk = .ok (size, digested) after) :
    Settles call source target resuming spreading disk size digested after ∧
      (call.progress = true → ∃ calls, Rises calls size ∧
        positions now call resuming spreading disk = calls.map (· + resuming.getD 0)) := by
  cases planned with
  | @spreads source_ target_ content workers from_' onto' direct here positive working some_ =>
      cases from_.symm.trans from_'
      cases onto.symm.trans onto'
      unfold moved at returned
      simp only [from_, onto] at returned
      obtain ⟨count, middle, spreads, rest⟩ := bind_returns returned
      cases rest
      obtain ⟨settles, rises⟩ := in_parallel_settles full apart here positive working some_ spreads
      refine ⟨settles, fun progress => ⟨_, rises progress, ?_⟩⟩
      unfold positions
      simp only [from_, onto, progress]
      simp
  | continues _ onto' there resume =>
      rw [moved] at returned
      on_goal 2 =>
        intro _ _ _ _ spread
        cases spread
      obtain ⟨sink, middle, streams, rest⟩ := bind_returns returned
      cases rest
      obtain ⟨settles, rises⟩ := streamed_settles full from_ onto apart (streamed_returns streams).1
      refine ⟨settles, fun progress => ⟨_, rises, ?_⟩⟩
      unfold positions
      simp only [progress, streams, List.map_map]
      rfl
  | streams =>
      rw [moved] at returned
      on_goal 2 =>
        intro _ _ _ _ spread
        cases spread
      obtain ⟨sink, middle, streams, rest⟩ := bind_returns returned
      cases rest
      obtain ⟨settles, rises⟩ := streamed_settles full from_ onto apart (streamed_returns streams).1
      refine ⟨settles, fun progress => ⟨_, rises, ?_⟩⟩
      unfold positions
      simp only [progress, streams, List.map_map]
      rfl

/-- The circumstances of two runs that may read and write in pieces of other sizes, with
their threads in another order. -/
structure Alike (now alone : Circumstances Name) : Prop where
  statable : now.statable = alone.statable
  checksum : now.checksum = alone.checksum
  hash : now.hash = alone.hash

/-- Two disks that hold the same at both ends. -/
structure Agree (source target : Url Name) (disk other : Disk Name) : Prop where
  source : disk.files source.name = other.files source.name
  target : disk.files target.name = other.files target.name

omit [DecidableEq Name] in
theorem probe_alike (alike : Alike now alone) {url : Url Name}
    (same : disk.files url.name = other.files url.name) :
    probe now url disk = probe alone url other := by
  rw [probe, probe, alike.statable, same]

omit [DecidableEq Name] in
theorem digest_of_alike (alike : Alike now alone) {url : Url Name}
    (same : disk.files url.name = other.files url.name) :
    digestOf now url disk = digestOf alone url other := by
  rw [digestOf, digestOf, alike.hash, alike.checksum, same]

omit [DecidableEq Name] in
theorem plan_alike (alike : Alike now alone) (agree : Agree source target disk other)
    (from_ : call.source = .url source) (onto : call.target = .url target) :
    plan now call disk = plan alone call other := by
  have one := probe_alike alike agree.source
  have two := probe_alike alike agree.target
  simp only [plan, continueFrom, spread, from_, onto, Source.place, Target.place, one, two]

omit [DecidableEq Name] in
theorem compared_alike {ours theirs : Option Text} {strict : Bool} {first second : Option Text}
    (one : compared ours theirs strict disk = .ok first after)
    (two : compared ours theirs strict other = .ok second later) : first = second := by
  unfold compared at one two
  rcases ours with - | ours <;> rcases theirs with - | theirs <;> dsimp only at one two <;>
    split_ifs at one two <;> cases one <;> cases two <;> rfl

omit [DecidableEq Name] in
theorem verified_alike (alike : Alike now alone) (agree : Agree source target disk other)
    (from_ : call.source = .url source) (onto : call.target = .url target) {apart : Bool}
    {digested : Bytes} {first second : Option Text}
    (one : verified now call apart digested disk = .ok first after)
    (two : verified alone call apart digested other = .ok second later) : first = second := by
  have ours := digest_of_alike alike agree.source
  have theirs := digest_of_alike alike agree.target
  unfold verified at one two
  rw [from_, onto] at one two
  dsimp only [Source.place, Target.place] at one two
  by_cases wanted : (!call.verify.getD call.verifyChecksums) = true
  · rw [if_pos wanted] at one two
    cases one
    cases two
    rfl
  rw [if_neg wanted] at one two
  by_cases ends : apart = true
  · rw [if_pos ends, run_bind, run_get] at one two
    dsimp only at one two
    rw [ours, theirs] at one
    exact compared_alike one two
  rw [if_neg ends] at one two
  cases asked : checkable call with
  | none =>
      rw [asked] at one two
      cases one
      cases two
      rfl
  | some url =>
      have named : url = source ∨ url = target := by
        obtain ⟨place, listed, kept⟩ := List.exists_of_findSome?_eq_some asked
        rw [from_, onto] at listed
        simp only [Source.place, Target.place, List.mem_cons, List.not_mem_nil, or_false] at listed
        have known := (Option.filter_eq_some_iff.mp kept).1
        rcases listed with rfl | rfl
        · exact .inr (Option.some.inj known).symm
        · exact .inl (Option.some.inj known).symm
      rw [asked] at one two
      simp only [run_bind, run_get] at one two
      rw [alike.hash, alike.checksum] at one
      have held : disk.files url.name = other.files url.name := by
        rcases named with rfl | rfl
        · exact agree.source
        · exact agree.target
      rw [held] at one
      exact compared_alike one two

/-- Two copies from one file to another that find the same at both ends, and are given all
there is, come to the same and leave the same there. -/
theorem copy_alike (alike : Alike now alone) (full : now.Full) (whole : alone.Full) (agree : Agree source target disk other)
    (from_ : call.source = .url source) (onto : call.target = .url target)
    (apart : source.name ≠ target.name) {first second : CopyResult}
    (one : copy now call disk = .ok first after)
    (two : copy alone call other = .ok second later) :
    first = second ∧ Agree source target after later := by
  cases dry : call.dryRun with
  | true =>
      unfold copy at one two
      rw [run_bind, run_get] at one two
      simp only [dry, if_true, from_, Source.place, Option.bind_some] at one two
      cases one
      cases two
      rw [probe_alike alike agree.source]
      exact ⟨rfl, agree⟩
  | false =>
      obtain ⟨resuming, spreading, size, digested, checksum, middle, planned, moves, checks, rfl, rfl⟩ :=
        copy_checks dry one
      obtain ⟨resuming', spreading', size', digested', checksum', middle', planned', moves', checks',
        rfl, rfl⟩ := copy_checks dry two
      rw [← plan_alike alike agree from_ onto, planned] at planned'
      cases planned'
      have plans := plan_cases planned
      rw [plan_alike alike agree from_ onto] at planned
      obtain ⟨first, -⟩ := moved_settles full from_ onto apart plans moves
      obtain ⟨second, -⟩ := moved_settles whole from_ onto apart (plan_cases planned) moves'
      have rest : remaining call source resuming spreading disk =
          remaining call source resuming spreading other := by
        rw [remaining, remaining, agree.source]
      have lands : landed call source target resuming spreading disk =
          landed call source target resuming spreading other := by
        unfold landed
        rw [rest, agree.target]
      have agrees : Agree source target middle middle' := by
        constructor
        · rw [first.source, second.source, agree.source]
        · rw [first.target, second.target, lands]
      have sizes : size = size' := by rw [first.size, second.size, rest]
      have digests : digested = digested' := by rw [first.digested, second.digested, rest]
      subst sizes
      subst digests
      rw [verified_alike alike agrees from_ onto checks checks']
      refine ⟨rfl, ?_⟩
      unfold swept
      rw [from_]
      cases call.removeSource with
      | false => exact agrees
      | true =>
          dsimp only [Source.place]
          constructor
          · dsimp only
            rw [Function.update_self, Function.update_self]
          · dsimp only
            rw [Function.update_of_ne apart.symm, Function.update_of_ne apart.symm]
            exact agrees.target

end Settled

end XRootDClient.Copy
