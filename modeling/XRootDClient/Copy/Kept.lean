import XRootDClient.Copy.Engine

/-!
# What a copy keeps

A copy that returns has put at the target what the source held, exactly when the
two are not one file that is emptied or deleted on the way, the source gave all it
had, and a stream took all it was given.
-/

set_option autoImplicit false

namespace XRootDClient.Copy

open Lib Lib.BigEndian Lib.Extent Lib.Run Lib.Stateful Lib.Tiling

variable {Name : Type} [DecidableEq Name] {now : Circumstances Name} {call : Call Name}
  {disk after : Disk Name}

omit [DecidableEq Name] in
theorem probe_some {url : Url Name} {size : Nat} (known : probe now url disk = some size) :
    ∃ content, disk.files url.name = some content ∧ content.length = size := by
  unfold probe at known
  split_ifs at known
  exact Option.map_eq_some_iff.mp known

omit [DecidableEq Name] in
theorem continue_from_some {offset : Nat} (known : continueFrom now call disk = .ok (some offset)) :
    ∃ source target content, call.source = .url source ∧ call.target = .url target ∧
      disk.files target.name = some content ∧ content.length = offset := by
  unfold continueFrom at known
  split_ifs at known
  cases from_ : call.source with
  | stream held =>
      rw [from_] at known
      cases known
  | url source =>
      cases onto : call.target with
      | stream =>
          rw [from_, onto] at known
          cases known
      | url target =>
          rw [from_, onto] at known
          dsimp only [Source.place, Target.place] at known
          cases there : probe now target disk with
          | none =>
              rw [there] at known
              cases known
          | some size =>
              obtain ⟨content, found, length⟩ := probe_some there
              refine ⟨source, target, content, rfl, rfl, found, ?_⟩
              rw [there] at known
              cases size with
              | zero => cases known
              | succ size =>
                  cases here : probe now source disk with
                  | none =>
                      rw [here] at known
                      cases known
                      exact length
                  | some total =>
                      rw [here] at known
                      change (if size + 1 > total then _ else _) = _ at known
                      split_ifs at known
                      cases known
                      exact length

omit [DecidableEq Name] in
theorem spread_some {workers size : Nat} (known : spread now call disk = .ok (some (workers, size))) :
    ∃ source target content, call.source = .url source ∧ call.target = .url target ∧
      target.scheme.direct = true ∧ disk.files source.name = some content ∧
      content.length = size ∧ 0 < call.chunk ∧ 0 < workers ∧ 0 < size := by
  unfold spread at known
  cases from_ : call.source with
  | stream held =>
      rw [from_] at known
      cases known
  | url source =>
      cases onto : call.target with
      | stream =>
          rw [from_, onto] at known
          cases known
      | url target =>
          rw [from_, onto] at known
          dsimp only [Source.place, Target.place] at known
          by_cases whole : (!divisible source target) = true
          · rw [if_pos whole] at known
            cases known
          rw [if_neg whole] at known
          cases here : probe now source disk with
          | none =>
              rw [here] at known
              cases known
          | some total =>
              obtain ⟨content, found, length⟩ := probe_some here
              rw [here] at known
              dsimp only at known
              by_cases none : call.chunk = 0
              · rw [if_pos none] at known
                cases known
              rw [if_neg none] at known
              split_ifs at known with several
              · cases known
                have least : 0 < size / call.chunk := by omega
                refine ⟨source, target, content, rfl, rfl, ?_, found, length, by omega, by omega,
                  ?_⟩
                · simp only [divisible, Bool.not_eq_true', Bool.not_eq_false, Bool.and_eq_true]
                    at whole
                  exact whole.1
                · exact Nat.pos_of_ne_zero fun zero => by simp [zero] at least
              · cases known

inductive Planned (now : Circumstances Name) (call : Call Name) (disk : Disk Name) :
    Option Nat → Option (Nat × Nat) → Prop
  | continues {source target : Url Name} {content : Bytes} (from_ : call.source = .url source)
      (onto : call.target = .url target) (there : disk.files target.name = some content)
      (resume : call.resume = true) : Planned now call disk (some content.length) none
  | spreads {source target : Url Name} {content : Bytes} {workers : Nat}
      (from_ : call.source = .url source) (onto : call.target = .url target)
      (direct : target.scheme.direct = true) (here : disk.files source.name = some content)
      (positive : 0 < call.chunk) (working : 0 < workers) (some_ : 0 < content.length) :
      Planned now call disk none (some (workers, content.length))
  | streams : Planned now call disk none none

omit [DecidableEq Name] in
theorem spread_planned {spreading : Option (Nat × Nat)}
    (known : spread now call disk = .ok spreading) : Planned now call disk none spreading := by
  cases spreading with
  | none => exact .streams
  | some both =>
      obtain ⟨workers, size⟩ := both
      obtain ⟨source, target, content, from_, onto, direct, here, rfl, positive, working, some_⟩ :=
        spread_some known
      exact .spreads from_ onto direct here positive working some_

omit [DecidableEq Name] in
theorem plan_cases {resuming : Option Nat} {spreading : Option (Nat × Nat)}
    (planned : plan now call disk = .ok (resuming, spreading)) :
    Planned now call disk resuming spreading := by
  have whole : ∀ {both}, (spread now call disk >>= fun parts => pure (none, parts)) = .ok both →
      Planned now call disk both.1 both.2 := by
    intro both spreads
    cases parts : spread now call disk with
    | error error =>
        rw [parts] at spreads
        cases spreads
    | ok parts_ =>
        rw [parts] at spreads
        cases spreads
        exact spread_planned parts
  unfold plan at planned
  by_cases resume : call.resume = true
  · rw [if_pos resume] at planned
    cases continues : continueFrom now call disk with
    | error error =>
        rw [continues] at planned
        cases planned
    | ok offset =>
        rw [continues] at planned
        cases offset with
        | none => exact whole planned
        | some offset =>
            cases planned
            obtain ⟨source, target, content, from_, onto, there, rfl⟩ := continue_from_some continues
            exact .continues from_ onto there resume
  · rw [if_neg resume] at planned
    exact whole planned

def Aliased (call : Call Name) : Prop :=
  ∃ source target, call.source = .url source ∧ call.target = .url target ∧
    source.name = target.name

def Target.holds (target : Target Name) (disk : Disk Name) : Option Bytes :=
  match target with
  | .stream => some disk.stream
  | .url place => disk.files place.name

def Target.direct (target : Target Name) : Bool :=
  target.place.any fun place => place.scheme.direct

/-- The target holds what the source held, all of it was counted, and a source
that was deleted was not the target. -/
structure Kept (call : Call Name) (held : Bytes) (result : CopyResult) (after : Disk Name) :
    Prop where
  holds : call.target.holds after = some held
  counted : result.resumedAt + result.size = held.length
  apart : after.removed = true → ¬ Aliased call

def pieces (now : Circumstances Name) (call : Call Name) (held : Bytes) (start : Nat) : List Item :=
  script held call.chunk now.answers (held.length - start + 1) 0 start

/-- The workers of a transfer as spans are each given their span before they are answered
nothing. -/
def SpansFed (now : Circumstances Name) (call : Call Name) (held : Bytes) (workers : Nat) : Prop :=
  Fed ⟨held, held.length, call.chunk, call.progress⟩ now.picks
    (launch (spans held.length workers))

/-- One file is not both ends of a move, nor emptied before it is read; a source gives
all it holds, or of each span all that is in it, before it answers with nothing; and a
stream takes every piece whole. -/
structure Careful (now : Circumstances Name) (call : Call Name) (held : Bytes)
    (resuming : Option Nat) (spreading : Option (Nat × Nat)) : Prop where
  apart : Aliased call → call.removeSource = false ∧
    (held = [] ∨ call.target.direct = false ∨ resuming.isSome = true)
  given : spreading = none →
    given (pieces now call held (resuming.getD 0)) = held.drop (resuming.getD 0)
  taken : spreading = none → call.target = .stream →
    takesAll now.takes (pieces now call held (resuming.getD 0)) 0 = true
  fed : ∀ workers size, spreading = some (workers, size) → SpansFed now call held workers

omit [DecidableEq Name] in
theorem not_aliased {source target : Url Name} (from_ : call.source = .url source)
    (onto : call.target = .url target) : Aliased call ↔ source.name = target.name := by
  constructor
  · rintro ⟨one, two, first, second, same⟩
    rw [from_] at first
    rw [onto] at second
    cases first
    cases second
    exact same
  · exact fun same => ⟨source, target, from_, onto, same⟩

theorem swept_kept (kept : call.removeSource = false) : swept call disk = disk := by
  rw [swept, kept]

theorem swept_removed (fresh : disk.removed = false) :
    (swept call disk).removed = true ↔
      call.removeSource = true ∧ ∃ source, call.source = .url source := by
  unfold swept
  cases call.removeSource with
  | false => simp [fresh]
  | true =>
      cases call.source with
      | stream held => simp [Source.place, fresh]
      | url source => simp [Source.place]

theorem swept_holds (apart : ¬ Aliased call) :
    call.target.holds (swept call disk) = call.target.holds disk := by
  unfold swept
  cases wanted : call.removeSource with
  | false => rfl
  | true =>
      cases from_ : call.source with
      | stream held => rfl
      | url source =>
          cases onto : call.target with
          | stream => rfl
          | url target =>
              have other : target.name ≠ source.name := by
                rw [not_aliased from_ onto] at apart
                exact fun same => apart same.symm
              exact Function.update_of_ne other none disk.files

theorem kept_iff {held content : Bytes} {result : CopyResult} (fresh : disk.removed = false)
    (holds : call.target.holds disk = some content) :
    Kept call held result (swept call disk) ↔
      (Aliased call → call.removeSource = false) ∧ content = held ∧
        result.resumedAt + result.size = held.length := by
  by_cases same : Aliased call
  · obtain ⟨source, target, from_, onto, name⟩ := id same
    cases wanted : call.removeSource with
    | false =>
        rw [swept_kept wanted]
        constructor
        · rintro ⟨stored, counted, -⟩
          rw [holds] at stored
          exact ⟨fun _ => rfl, Option.some.inj stored, counted⟩
        · rintro ⟨-, rfl, counted⟩
          exact ⟨holds, counted, fun gone => by rw [fresh] at gone; cases gone⟩
    | true =>
        constructor
        · rintro ⟨-, -, apart⟩
          exact absurd same (apart ((swept_removed fresh).mpr ⟨wanted, source, from_⟩))
        · rintro ⟨kept, -⟩
          cases kept same
  · constructor
    · rintro ⟨stored, counted, -⟩
      rw [swept_holds same, holds] at stored
      exact ⟨fun aliased => absurd aliased same, Option.some.inj stored, counted⟩
    · rintro ⟨-, rfl, counted⟩
      exact ⟨by rw [swept_holds same, holds], counted, fun _ => same⟩

theorem barren {transfer : Transfer} (empty : transfer.source = []) (pieces : List (Nat × Nat))
    (picks : List (Nat × Option Nat)) :
    ((launch pieces).after transfer picks).shared.target = [] := by
  have idle := run_invariant (Pool.step transfer) (fun _ => True)
    (fun pool => pool.shared.target = [] ∧ ∀ worker ∈ pool.workers, ∀ data,
      worker.phase ≠ .writes data) ?_ picks (launch pieces) (fun _ _ => trivial) ?_
  · exact idle.1
  · rintro pool pick - ⟨none, writes⟩
    unfold Pool.step
    cases found : pool.workers[pick.1]? with
    | none => exact ⟨none, writes⟩
    | some worker =>
        have still := writes worker (List.mem_of_getElem? found)
        have same : (worker.step transfer pick.2 pool.shared).2.target = [] ∧
            ∀ data, (worker.step transfer pick.2 pool.shared).1.phase ≠ .writes data := by
          unfold Worker.step
          split
          · exact ⟨none, still⟩
          · exact ⟨none, still⟩
          · exact ⟨none, fun _ => by simp⟩
          · simp only [empty, fetch, List.drop_nil, List.take_nil, List.isEmpty_nil, if_true]
            split_ifs <;> exact ⟨none, fun _ => by simp⟩
          · rename_i data _ writing _
            exact absurd writing (still data)
          · exact ⟨none, fun _ => by simp⟩
        refine ⟨same.1, fun other member => ?_⟩
        rcases List.mem_or_eq_of_mem_set member with earlier | rfl
        · exact writes other earlier
        · exact same.2
  · refine ⟨rfl, fun worker member data => ?_⟩
    obtain ⟨piece, -, rfl⟩ := List.mem_map.mp member
    simp

theorem store_same (name : Name) (content : Bytes) :
    (disk.store name content).files name = some content := by
  rw [Disk.store]
  exact Function.update_self name _ disk.files

theorem store_holds {target : Url Name} (onto : call.target = .url target) (content : Bytes) :
    call.target.holds (disk.store target.name content) = some content := by
  rw [onto]
  exact store_same target.name content

theorem opened_other {target : Url Name} {name : Name} (other : name ≠ target.name) :
    (opened target disk).files name = disk.files name := by
  unfold opened
  split_ifs
  · exact Function.update_of_ne other _ _
  · rfl

theorem opened_removed (target : Url Name) : (opened target disk).removed = disk.removed := by
  unfold opened
  split_ifs <;> rfl

theorem opened_same {target : Url Name} (direct : target.scheme.direct = true) :
    (opened target disk).files target.name = some [] := by
  rw [opened, if_pos direct]
  exact Function.update_self target.name (some []) disk.files

/-- A transfer as spans puts at the target what the source holds once the target is
open. -/
theorem in_parallel_holds {source target : Url Name} {workers count : Nat} {content : Bytes}
    (from_ : call.source = .url source) (onto : call.target = .url target)
    (direct : target.scheme.direct = true) (here : disk.files source.name = some content)
    (positive : 0 < call.chunk) (working : 0 < workers) (some_ : 0 < content.length)
    (returned : inParallel now call source target workers content.length disk = .ok count after) :
    after.removed = disk.removed ∧ ∃ stored, call.target.holds after = some stored ∧
      (stored = content ∧ count = content.length ↔
        ¬ Aliased call ∧ SpansFed now call content workers) := by
  obtain ⟨finished, rfl, rfl⟩ := in_parallel_returns returned
  refine ⟨opened_removed target, _, store_holds onto _, ?_⟩
  rw [not_aliased from_ onto]
  by_cases same : source.name = target.name
  · have empty : (Source.url source).held (opened target disk) = [] := by
      rw [Source.held, same, opened_same direct]
      rfl
    refine iff_of_false ?_ (fun both => both.1 same)
    rintro ⟨whole, -⟩
    rw [barren empty] at whole
    rw [← whole] at some_
    exact Nat.lt_irrefl 0 some_
  · have whole : (Source.url source).held (opened target disk) = content := by
      rw [Source.held, opened_other same, here]
      rfl
    rw [whole] at finished ⊢
    have tiles := (spans_tile some_ working).2
    constructor
    · rintro ⟨-, counted⟩
      refine ⟨same, ?_⟩
      by_contra starved
      have less := starved_moves_less starved
      rw [counted, tiles.total, Nat.sub_zero] at less
      exact Nat.lt_irrefl _ less
    · rintro ⟨-, fed⟩
      have sound := (@launch_sound ⟨content, content.length, call.chunk, call.progress⟩ _ tiles).after
        positive tiles fed
      obtain ⟨stored, moved, -⟩ := sound.finish tiles finished
      exact ⟨stored, moved⟩

theorem drain_takes_all {source : Bytes} {chunk : Nat} {answers : Answers} {takes : Takes}
    (large : ∀ offered count, takes offered = some count → chunk ≤ count) {fuel asked : Nat}
    {position : Nat} {sink out : Sink}
    (drained : drain takes none (script source chunk answers fuel asked position) sink = some out) :
    takesAll takes (script source chunk answers fuel asked position) sink.writes = true := by
  induction fuel generalizing asked position sink with
  | zero => rfl
  | succ fuel induction =>
      rw [script] at drained ⊢
      cases answer : answers asked with
      | none => rfl
      | some count =>
          rw [answer] at drained
          dsimp only at drained ⊢
          generalize filled : fill source position chunk count = piece at drained ⊢
          split_ifs at drained ⊢
          · rfl
          · rw [drain, Option.bind_eq_some_iff] at drained
            obtain ⟨middle, taken, rest⟩ := drained
            obtain ⟨room, known, rfl⟩ := take_some taken
            have short : piece.length ≤ chunk := by
              rw [← filled, fill, length_fetch]
              omega
            rw [takesAll, known, Bool.and_eq_true, decide_eq_true_eq]
            exact ⟨by have := large _ _ known; omega, induction rest⟩

/-- A writer that has the first bytes of what there is has all of it in the end
exactly when the rest was given, and taken whole. -/
theorem drained_iff {content held : Bytes} {items : List Item} {takes : Takes} {sink : Sink}
    (front : content <+: held) (behind : given items <+: held.drop content.length)
    (drained : drain takes none items { content := content, position := content.length } =
      some sink) :
    sink.content = held ∧ content.length + sink.done = held.length ↔
      given items = held.drop content.length ∧ takesAll takes items 0 = true := by
  have counts := (drain_counts drained).1
  dsimp only at counts
  rw [Nat.zero_add] at counts
  have most := front.length_le
  constructor
  · rintro ⟨rfl, counted⟩
    have all : given items = sink.content.drop content.length := by
      refine behind.eq_of_length ?_
      rw [List.length_drop]
      omega
    refine ⟨all, (drain_length drained rfl).2 ?_⟩
    dsimp only
    omega
  · rintro ⟨all, whole⟩
    have stored := drain_whole drained whole
    dsimp only at stored
    rw [patch_end, all] at stored
    obtain ⟨rest, rfl⟩ := front
    rw [List.drop_left] at stored all
    refine ⟨stored, ?_⟩
    rw [counts, all, List.length_append]

theorem opened_held {target : Url Name} (onto : call.target = .url target)
    (apart : Aliased call → target.scheme.direct = false) :
    call.source.held (opened target disk) = call.source.held disk := by
  by_cases direct : target.scheme.direct = true
  · cases from_ : call.source with
    | stream held => rfl
    | url source =>
        have other : source.name ≠ target.name := by
          intro same
          have known := apart ((not_aliased from_ onto).mpr same)
          rw [direct] at known
          cases known
        rw [Source.held, Source.held, opened_other other]
  · rw [opened, if_neg direct]

theorem opened_held_same {target : Url Name} (onto : call.target = .url target)
    (same : Aliased call) (direct : target.scheme.direct = true) :
    call.source.held (opened target disk) = [] := by
  obtain ⟨source, _, from_, -, -⟩ := id same
  have name := (not_aliased from_ onto).mp same
  rw [from_, Source.held, name, opened_same direct]
  rfl

omit [DecidableEq Name] in
theorem takes_chunks {target : Url Name} (onto : call.target = .url target) (offered count : Nat)
    (taken : takesOf now call.target call.chunk offered = some count) : call.chunk ≤ count := by
  rw [onto] at taken
  obtain ⟨room, -, rfl⟩ := Option.map_eq_some_iff.mp taken
  exact Nat.le_max_left _ _

theorem streams_hold {resuming : Option Nat} {sink : Sink}
    (streams : Streams now call disk resuming sink after)
    (planned : Planned now call disk resuming none)
    (resumes : call.resume = true → ∀ target content, call.target = .url target →
      disk.files target.name = some content → content <+: call.source.held disk) :
    after.removed = disk.removed ∧ ∃ stored, call.target.holds after = some stored ∧
      let held := call.source.held disk
      let start := resuming.getD 0
      (stored = held ∧ start + sink.done = held.length ↔
        (Aliased call → held = [] ∨ call.target.direct = false ∨ resuming.isSome = true) ∧
        given (pieces now call held start) = held.drop start ∧
        (call.target = .stream → takesAll now.takes (pieces now call held start) 0 = true)) := by
  cases streams with
  | given onto pumped =>
      cases planned with
      | continues from_ other => cases onto.symm.trans other
      | streams =>
          refine ⟨rfl, sink.content, by rw [onto]; rfl, ?_⟩
          intro held start
          have decided := @drained_iff [] held _ _ sink List.nil_prefix
            (given_script_starts _ _ _) pumped
          rw [List.length_nil] at decided
          have apart : Aliased call → held = [] ∨ call.target.direct = false ∨
              (none : Option Nat).isSome = true := by
            rintro ⟨source, target, from_, other, -⟩
            cases onto.symm.trans other
          rw [onto] at decided
          exact decided.trans ⟨fun ⟨all, whole⟩ => ⟨apart, all, fun _ => whole⟩,
            fun ⟨_, all, whole⟩ => ⟨all, whole onto⟩⟩
  | @written target sink onto pumped =>
      refine ⟨opened_removed _, sink.content, store_holds onto _, ?_⟩
      intro held start
      have direct : call.target.direct = target.scheme.direct := by rw [onto]; rfl
      have taken := drain_takes_all (takes_chunks onto) pumped
      have decided := @drained_iff [] _ _ _ sink List.nil_prefix (given_script_starts _ _ _) pumped
      rw [List.length_nil, List.drop_zero, and_iff_left taken] at decided
      by_cases emptied : Aliased call ∧ target.scheme.direct = true
      · obtain ⟨same, inPlace⟩ := emptied
        rw [opened_held_same onto same inPlace] at decided
        have nothing := decided.mpr (List.prefix_nil.mp (given_script_starts _ _ _))
        rw [nothing.1]
        constructor
        · rintro ⟨empty, -⟩
          refine ⟨fun _ => .inl empty.symm, ?_, fun other => by cases onto.symm.trans other⟩
          rw [← empty]
          exact List.prefix_nil.mp (given_script_starts _ _ _)
        · rintro ⟨apart, -⟩
          have empty : held = [] := by
            rcases apart same with empty | other | resumed
            · exact empty
            · rw [direct, inPlace] at other
              cases other
            · cases resumed
          rw [empty]
          exact ⟨rfl, nothing.2⟩
      · have apart : Aliased call → target.scheme.direct = false := by
          intro same
          exact Bool.eq_false_iff.mpr fun inPlace => emptied ⟨same, inPlace⟩
        rw [opened_held onto apart] at decided
        refine decided.trans ⟨fun all => ?_, fun ⟨_, all, _⟩ => all⟩
        exact ⟨fun same => .inr (.inl (direct ▸ apart same)), all,
          fun other => by cases onto.symm.trans other⟩
  | @continued target offset content sink onto there pumped =>
      refine ⟨rfl, sink.content, store_holds onto _, ?_⟩
      intro held start
      cases planned with
      | continues from_ other found resume =>
          cases onto.symm.trans other
          cases there.symm.trans found
          have taken := drain_takes_all (takes_chunks onto) pumped
          have decided := drained_iff (resumes resume target content onto there)
            (given_script_starts _ _ _) pumped
          rw [and_iff_left taken] at decided
          exact decided.trans ⟨fun all => ⟨fun _ => .inr (.inr rfl), all,
            fun other => by cases onto.symm.trans other⟩, fun ⟨_, all, _⟩ => all⟩

theorem store_other {name other : Name} (apart : other ≠ name) (content : Bytes) :
    (disk.store name content).files other = disk.files other :=
  Function.update_of_ne apart _ _

theorem moved_lands {source target : Url Name} {resuming : Option Nat}
    {spreading : Option (Nat × Nat)} {count : Nat × Bytes} (from_ : call.source = .url source)
    (onto : call.target = .url target)
    (returned : moved now call resuming spreading disk = .ok count after) :
    ∃ content, after = (opened target disk).store target.name content ∨
      after = disk.store target.name content := by
  cases spreading with
  | some both =>
      unfold moved at returned
      simp only [from_, onto] at returned
      obtain ⟨size, middle, spread, rest⟩ := bind_returns returned
      cases rest
      obtain ⟨-, -, stored⟩ := in_parallel_returns spread
      exact ⟨_, .inl stored⟩
  | none =>
      rw [moved] at returned
      on_goal 2 => nofun
      obtain ⟨sink, middle, streams, rest⟩ := bind_returns returned
      cases rest
      cases (streamed_returns streams).1 with
      | given other => cases onto.symm.trans other
      | written same =>
          cases onto.symm.trans same
          exact ⟨_, .inl rfl⟩
      | continued same =>
          cases onto.symm.trans same
          exact ⟨_, .inr rfl⟩

/-- A copy that returns has left a file at the target, and only its two ends are
touched. -/
theorem copy_lands {source target : Url Name} {result : CopyResult} (live : call.dryRun = false)
    (from_ : call.source = .url source) (onto : call.target = .url target)
    (apart : source.name ≠ target.name) (returned : copy now call disk = .ok result after) :
    (after.files target.name).isSome = true ∧
      ∀ name, name ≠ source.name → name ≠ target.name → after.files name = disk.files name := by
  obtain ⟨resuming, spreading, size, digested, middle, -, moves, -, -, rfl⟩ :=
    copy_returns live returned
  have untouched : ∀ name, name ≠ source.name → (swept call middle).files name =
      middle.files name := by
    intro name other
    unfold swept
    rw [from_]
    cases call.removeSource with
    | false => rfl
    | true => exact Function.update_of_ne other none middle.files
  obtain ⟨content, rfl | rfl⟩ := moved_lands from_ onto moves
  · refine ⟨?_, fun name one two => ?_⟩
    · rw [untouched _ apart.symm, store_same]
      rfl
    · rw [untouched _ one, store_other two, opened_other two]
  · refine ⟨?_, fun name one two => ?_⟩
    · rw [untouched _ apart.symm, store_same]
      rfl
    · rw [untouched _ one, store_other two]

def Spares {Value : Type} (act : Act Name Value) : Prop :=
  Respects (fun before after => after.removed = before.removed) act

section Outcomes

variable {Value : Type} {act : Act Name Value}

omit [DecidableEq Name] in
theorem Spares.returned (spares : Spares act) {value : Value}
    (returned : act disk = .ok value after) : after.removed = disk.removed := by
  have kept := spares disk
  rw [returned] at kept
  exact kept

omit [DecidableEq Name] in
theorem Spares.raised (spares : Spares act) {error : Error}
    (raised : act disk = .error error after) : after.removed = disk.removed := by
  have kept := spares disk
  rw [raised] at kept
  exact kept

end Outcomes

omit [DecidableEq Name] in
theorem spares_bind {Value Other : Type} {first : Act Name Value} {rest : Value → Act Name Other}
    (before : Spares first) (after : ∀ value, Spares (rest value)) : Spares (first >>= rest) :=
  respects_bind (fun one two => two.trans one) before after

omit [DecidableEq Name] in
theorem spares_pure {Value : Type} (value : Value) : Spares (pure value : Act Name Value) :=
  fun _ => rfl

omit [DecidableEq Name] in
theorem open_reader_spares (source : Source Name) : Spares (openReader now source) := by
  intro world
  unfold openReader
  cases source with
  | stream held => rfl
  | url url =>
      dsimp only
      split_ifs
      · rfl
      · rw [run_bind, run_get]
        dsimp only
        split_ifs <;> rfl

theorem open_writer_spares (url : Url Name) (overwrite : Bool) :
    Spares (openWriter now url overwrite) := by
  intro world
  unfold openWriter
  by_cases other : url.scheme = .other
  · rw [if_pos other]
    rfl
  rw [if_neg other]
  by_cases fails : now.raises .opensTarget = true
  · rw [if_pos fails]
    rfl
  simp only [if_neg fails, run_bind, run_get]
  split_ifs <;> rfl

theorem open_sink_spares (resuming : Option Nat) : Spares (openSink now call resuming) := by
  unfold openSink
  split
  · rename_i url offset _
    intro world
    unfold openResumer
    by_cases known : url.scheme ≠ .local_ ∧ url.scheme ≠ .root
    · rw [if_pos known]
      rfl
    rw [if_neg known]
    by_cases fails : now.raises .opensTarget = true
    · rw [if_pos fails]
      rfl
    simp only [if_neg fails, run_bind, run_get]
    cases world.files url.name <;> rfl
  · exact spares_bind (open_writer_spares _ _) fun _ => spares_pure _
  · exact spares_pure _

omit [DecidableEq Name] in
theorem pump_through_spares (source : Bytes) (start : Nat) (sink : Sink) :
    Spares (pumpThrough now call source start sink) := by
  unfold pumpThrough
  dsimp only
  split_ifs
  · split <;> exact fun _ => rfl
  · split <;> exact fun _ => rfl

theorem settle_spares (target : Target Name) (sink : Sink) : Spares (settle now target sink) := by
  intro world
  unfold settle
  cases target with
  | stream => rfl
  | url url =>
      dsimp only
      split_ifs <;> rfl

omit [DecidableEq Name] in
theorem contents_spares (source : Source Name) : Spares (contents source) := by
  intro world
  rw [contents_run]
  rfl

theorem in_parallel_spares (source target : Url Name) (workers size : Nat) :
    Spares (inParallel now call source target workers size) := by
  refine spares_bind (open_writer_spares _ _) fun _ => ?_
  refine spares_bind (contents_spares _) fun held => ?_
  intro world
  rw [run_bind, run_modify]
  dsimp only
  split_ifs <;> rfl

theorem moved_spares (resuming : Option Nat) (spreading : Option (Nat × Nat)) :
    Spares (moved now call resuming spreading) := by
  unfold moved
  split
  · exact spares_bind (in_parallel_spares _ _ _ _) fun _ => spares_pure _
  · refine spares_bind ?_ fun _ => spares_pure _
    refine spares_bind (open_reader_spares _) fun _ => ?_
    refine spares_bind (open_sink_spares _) fun _ => ?_
    refine spares_bind (contents_spares _) fun _ => ?_
    refine spares_bind (pump_through_spares _ _ _) fun _ => ?_
    exact spares_bind (settle_spares _ _) fun _ => spares_pure _

omit [DecidableEq Name] in
theorem verified_spares (apart : Bool) (digested : Bytes) :
    Spares (verified now call apart digested) := by
  have compares : ∀ ours theirs strict, Spares (compared ours theirs strict : Act Name _) := by
    intro ours theirs strict world
    unfold compared
    split
    · split_ifs <;> rfl
    · split_ifs <;> rfl
  have got : ∀ rest : Disk Name → Act Name (Option Text), (∀ world, Spares (rest world)) →
      Spares (get >>= rest) := fun rest spares => spares_bind (fun _ => rfl) spares
  unfold verified
  dsimp only
  split_ifs
  · exact spares_pure _
  · split
    · exact got _ fun _ => compares _ _ _
    · exact spares_pure _
  · split
    · exact spares_pure _
    · exact got _ fun _ => compares _ _ _

theorem remove_source_raises {error : Error}
    (raised : removeSource now call disk = .error error after) : after = disk := by
  unfold removeSource at raised
  generalize call.removeSource = wanted, call.source.place = place at raised
  rcases wanted with - | - <;> rcases place with - | url
  · cases raised
  · cases raised
  · cases raised
  · dsimp only at raised
    unfold remove at raised
    split_ifs at raised <;> cases raised
    rfl

theorem copy_raises {error : Error} (raised : copy now call disk = .error error after) :
    after.removed = disk.removed := by
  unfold copy at raised
  rw [run_bind, run_get] at raised
  dsimp only at raised
  by_cases dry : call.dryRun = true
  · rw [if_pos dry] at raised
    cases raised
  rw [if_neg dry] at raised
  have plans : Spares (lift (plan now call disk) : Act Name _) := by
    cases plan now call disk <;> exact fun _ => rfl
  obtain early | ⟨both, first, planned, moving⟩ := bind_raises raised
  · exact plans.raised early
  have one := plans.returned planned
  obtain early | ⟨value, middle, moves, verifying⟩ := bind_raises moving
  · exact ((moved_spares _ _).raised early).trans one
  have two := (moved_spares _ _).returned moves
  obtain early | ⟨checksum, same, verifies, removing⟩ := bind_raises verifying
  · exact ((verified_spares _ _).raised early).trans (two.trans one)
  have three := (verified_spares _ _).returned verifies
  obtain early | ⟨-, last, -, done⟩ := bind_raises removing
  · rw [remove_source_raises early]
    exact three.trans (two.trans one)
  · cases done

/-- Endpoints at which nothing raises and every read and write is whole. -/
def calm : Circumstances Bool where
  statable _ := true
  answers _ := some 4
  takes _ := some 4
  turns := []
  picks := []
  raises _ := false
  checksum _ _ := none
  hash _ := []

def threeBytes : Disk Bool where
  files name := if name then some [7, 8, 9] else none

def locally (source target : Bool) (removeSource : Bool) : Call Bool where
  source := .url ⟨.local_, source⟩
  target := .url ⟨.local_, target⟩
  chunk := 4
  inFlight := 1
  parallelChunks := 1
  verifyChecksums := false
  removeSource := removeSource

/-- A move of a file at an http server to a local one, in two spans; the server has closed
the connection of the second before its last byte. -/
def fromServer : Call Bool where
  source := .url ⟨.http, true⟩
  target := .url ⟨.local_, false⟩
  chunk := 1
  inFlight := 1
  parallelChunks := 2
  verifyChecksums := false
  removeSource := true

def closing : Circumstances Bool :=
  { calm with picks :=
      [(0, some 1), (0, some 1), (0, some 1), (0, some 1), (0, some 1), (1, some 0)] }

end XRootDClient.Copy
