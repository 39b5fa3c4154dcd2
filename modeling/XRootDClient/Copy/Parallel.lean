import XRootDClient.Copy.Pump
import XRootDClient.Lib.Run
import XRootDClient.Lib.Tiling

/-!
# The parallel copy

A transfer moved as spans, one worker each. A worker reads from its own place in
the source, writes to the same place in the target and reports under a lock; the
workers share the target and the count, and take their steps in any order. What a
worker has written no other touches, so whatever the order the target ends up as
one stream would have left it.
-/

set_option autoImplicit false

namespace XRootDClient.Copy

open Lib Lib.BigEndian Lib.Extent Lib.Run Lib.Tiling

/-- `range(0, stop, step)`. -/
def rangeStep (stop step : Nat) : List Nat :=
  (List.range ((stop + step - 1) / step)).map fun index => index * step

/-- `_spans`. The step is rounded up, so the last piece is the short one. -/
def spans (size workers : Nat) : List (Nat × Nat) :=
  let step := (-(-(size : Int) / workers)).toNat
  (rangeStep size step).map fun offset => (offset, min step (size - offset))

inductive Phase
  | reads
  | writes (data : Bytes)
  | reports (count : Nat)
  | done
  | failed
  deriving DecidableEq

structure Worker where
  offset : Nat
  length : Nat
  moved : Nat := 0
  phase : Phase := .reads
  deriving DecidableEq

/-- The target, the count of bytes reported and the calls of `progress`. -/
structure Shared where
  target : Bytes := []
  reported : Nat := 0
  calls : List (Nat × Nat) := []
  deriving DecidableEq

structure Pool where
  workers : List Worker
  shared : Shared := {}
  deriving DecidableEq

/-- A transfer: the source, the size it was planned for, the chunk size and whether
somebody wants to hear of it. -/
structure Transfer where
  source : Bytes
  size : Nat
  chunk : Nat
  progress : Bool

variable (transfer : Transfer)

/-- One step of `move`'s loop. A step may raise; a read that does not gives at most
so many bytes, and none where the source answers nothing. -/
def Worker.step (answer : Option Nat) (worker : Worker) (shared : Shared) : Worker × Shared :=
  match worker.phase, answer with
  | .done, _ | .failed, _ => (worker, shared)
  | _, none => ({ worker with phase := .failed }, shared)
  | .reads, some count =>
      if worker.moved < worker.length then
        let wanted := min transfer.chunk (worker.length - worker.moved)
        let data := fetch transfer.source (worker.offset + worker.moved) (min count wanted)
        ({ worker with phase := if data.isEmpty then .done else .writes data }, shared)
      else ({ worker with phase := .done }, shared)
  | .writes data, some _ =>
      ({ worker with
          moved := worker.moved + data.length
          phase := if transfer.progress then .reports data.length else .reads },
        { shared with
          target := patch 0 shared.target (worker.offset + worker.moved) data })
  | .reports count, some _ =>
      ({ worker with phase := .reads },
        { shared with
          reported := shared.reported + count
          calls := shared.calls ++ [(shared.reported + count, transfer.size)] })

def Pool.step (pick : Nat × Option Nat) (pool : Pool) : Pool :=
  match pool.workers[pick.1]? with
  | none => pool
  | some worker =>
      let moved := worker.step transfer pick.2 pool.shared
      { workers := pool.workers.set pick.1 moved.1, shared := moved.2 }

def launch (pieces : List (Nat × Nat)) : Pool where
  workers := pieces.map fun piece => { offset := piece.1, length := piece.2 }

def Worker.idle (worker : Worker) : Bool := worker.phase = .done || worker.phase = .failed

/-- The source answers nothing to a worker that has not moved its whole span. -/
def Worker.starves (answer : Option Nat) (worker : Worker) : Bool :=
  worker.phase = .reads && worker.moved < worker.length && answer = some 0

def Pool.starves (pick : Nat × Option Nat) (pool : Pool) : Bool :=
  (pool.workers[pick.1]?).any (Worker.starves pick.2)

/-- No worker is answered nothing before the end of its span. -/
def Fed (transfer : Transfer) (picks : List (Nat × Option Nat)) (pool : Pool) : Prop :=
  ∀ entry ∈ history (Pool.step transfer) picks pool, entry.before.starves entry.label = false

def Pool.finished (pool : Pool) : Bool := pool.workers.all fun worker => worker.phase = .done

def Pool.busy (pool : Pool) (pick : Nat × Option Nat) : Bool :=
  (pool.workers[pick.1]?).any fun worker => !worker.idle

def Pool.moved (pool : Pool) : Nat := (pool.workers.map Worker.moved).sum

theorem rounded_up {size workers : Nat} (some : 0 < size) (working : 0 < workers) :
    0 < (-(-(size : Int) / workers)).toNat ∧
      size ≤ workers * (-(-(size : Int) / workers)).toNat := by
  have positive : (0 : Int) < workers := by omega
  have least : (workers : Int) * (-(size : Int) / workers) ≤ -(size : Int) :=
    Int.mul_ediv_self_le positive.ne'
  generalize -(size : Int) / workers = quotient at least ⊢
  have negative : quotient < 0 := by
    by_contra none
    have := Int.mul_nonneg positive.le (not_lt.mp none)
    omega
  have whole : ((-quotient).toNat : Int) = -quotient := Int.toNat_of_nonneg (by omega)
  have bound : (size : Int) ≤ workers * ((-quotient).toNat : Int) := by
    rw [whole, Int.mul_neg]
    omega
  exact ⟨by omega, by exact_mod_cast bound⟩

theorem tiles_from {size step : Nat} (positive : 0 < step) (count start : Nat)
    (last : (start + count) * step < size + step) (enough : size ≤ (start + count) * step) :
    Tiles (min (start * step) size) size ((List.range' start count).map fun index =>
      (index * step, min step (size - index * step))) := by
  induction count generalizing start with
  | zero =>
      rw [Nat.add_zero] at enough
      rw [Nat.min_eq_right enough]
      exact .done size
  | succ count induction =>
      have next : (start + 1) * step = start * step + step := Nat.succ_mul start step
      have room : start * step < size := by
        have more : (start + 1) * step ≤ (start + (count + 1)) * step :=
          Nat.mul_le_mul_right step (by omega)
        omega
      have later := induction (start + 1) (by rwa [Nat.add_right_comm, Nat.add_assoc])
        (by rwa [Nat.add_right_comm, Nat.add_assoc])
      rw [List.range'_succ, List.map_cons, Nat.min_eq_left room.le]
      refine .next _ _ (by omega) ?_
      rw [show start * step + min step (size - start * step) = min ((start + 1) * step) size by
        omega]
      exact later

theorem spans_tile {size workers : Nat} (some : 0 < size) (working : 0 < workers) :
    (spans size workers).length ≤ workers ∧ Tiles 0 size (spans size workers) := by
  obtain ⟨positive, enough⟩ := rounded_up some working
  rw [spans]
  generalize (-(-(size : Int) / workers)).toNat = step at positive enough ⊢
  have floor := Nat.div_add_mod (size + step - 1) step
  have below := Nat.mod_lt (size + step - 1) positive
  generalize count : (size + step - 1) / step = pieces at floor
  have fewer : pieces ≤ workers := by
    by_contra more
    have product : (workers + 1) * step ≤ pieces * step := Nat.mul_le_mul_right step (by omega)
    rw [Nat.mul_comm] at floor
    rw [Nat.succ_mul] at product
    omega
  rw [rangeStep, count, List.map_map]
  refine ⟨by rw [List.length_map, List.length_range]; exact fewer, ?_⟩
  rw [Nat.mul_comm] at floor
  have tiles := @tiles_from size step positive pieces 0 (by rw [Nat.zero_add]; omega)
    (by rw [Nat.zero_add]; omega)
  rw [Nat.zero_mul, Nat.zero_min, ← List.range_eq_range'] at tiles
  exact tiles

/-- A worker has written what it moved, and holds what comes next. -/
structure Worker.Sound (transfer : Transfer) (target : Bytes) (worker : Worker) : Prop where
  inside : worker.offset + worker.length ≤ transfer.source.length
  within : worker.moved ≤ worker.length
  written : ∀ index, worker.offset ≤ index → index < worker.offset + worker.moved →
    target[index]? = transfer.source[index]?
  holds : match worker.phase with
    | .writes data => data ≠ [] ∧ worker.moved + data.length ≤ worker.length ∧
        data = fetch transfer.source (worker.offset + worker.moved) data.length
    | .reports count => 0 < count
    | .done => worker.moved = worker.length
    | _ => True

def Worker.unreported (worker : Worker) : Nat :=
  match worker.phase with
  | .reports count => count
  | _ => 0

/-- The calls of `progress` count up to what is reported. -/
structure Shared.Counts (size : Nat) (shared : Shared) : Prop where
  rising : (shared.calls.map Prod.fst).Pairwise (· < ·)
  most : ∀ call ∈ shared.calls, call.1 ≤ shared.reported
  last : shared.calls.getLast? =
    if shared.reported = 0 then none else some (shared.reported, size)

structure Pool.Sound (transfer : Transfer) (pieces : List (Nat × Nat)) (pool : Pool) : Prop where
  placed : (pool.workers.map fun worker => (worker.offset, worker.length)) = pieces
  each : ∀ worker ∈ pool.workers, worker.Sound transfer pool.shared.target
  bounded : pool.shared.target.length ≤ transfer.source.length
  counted : transfer.progress = true → (∀ worker ∈ pool.workers, worker.phase ≠ .failed) →
    pool.shared.reported + (pool.workers.map Worker.unreported).sum = pool.moved
  counts : pool.shared.Counts transfer.size

section Steps

variable {transfer} {target : Bytes} {worker : Worker}

theorem Worker.Sound.other (sound : worker.Sound transfer target) {start : Nat} {data : Bytes}
    (some : data ≠ [])
    (apart : worker.offset + worker.length ≤ start ∨ start + data.length ≤ worker.offset) :
    worker.Sound transfer (patch 0 target start data) := by
  refine ⟨sound.inside, sound.within, fun index first last => ?_, sound.holds⟩
  have within := sound.within
  have inside := sound.inside
  have same := sound.written index first last
  have there : index < target.length := by
    rw [List.getElem?_eq_getElem (by omega : index < transfer.source.length)] at same
    exact (List.getElem?_eq_some_iff.mp same).1
  rw [getElem?_patch 0 target start some, ← same]
  split_ifs <;> first | rfl | omega

theorem Worker.Sound.stored (sound : worker.Sound transfer target) {data : Bytes}
    (holds : worker.phase = .writes data) (index : Nat) (first : worker.offset ≤ index)
    (last : index < worker.offset + (worker.moved + data.length)) :
    (patch 0 target (worker.offset + worker.moved) data)[index]? = transfer.source[index]? := by
  have known := sound.holds
  rw [holds] at known
  obtain ⟨some, room, same⟩ := known
  have inside := sound.inside
  rw [getElem?_patch 0 target _ some]
  split_ifs with before there after
  · exact sound.written index first before
  · have written := sound.written index first before
    rw [List.getElem?_eq_getElem (by omega : index < transfer.source.length)] at written
    exact absurd (List.getElem?_eq_some_iff.mp written).1 there
  · rw [same, fetch, List.getElem?_take_of_lt (by omega), List.getElem?_drop]
    congr 1
    omega
  · omega

theorem Shared.Counts.report {size : Nat} {shared : Shared} (counts : shared.Counts size)
    {count : Nat} (more : 0 < count) :
    Shared.Counts size { shared with
      reported := shared.reported + count
      calls := shared.calls ++ [(shared.reported + count, size)] } := by
  refine ⟨?_, fun call member => ?_, ?_⟩
  · rw [List.map_append, List.pairwise_append]
    refine ⟨counts.rising, List.pairwise_singleton _ _, fun earlier listed later last => ?_⟩
    obtain ⟨call, member, rfl⟩ := List.mem_map.mp listed
    rw [List.map_singleton, List.mem_singleton] at last
    have most := counts.most call member
    rw [last]
    dsimp only
    omega
  · rcases List.mem_append.mp member with earlier | last
    · exact Nat.le_add_right_of_le (counts.most call earlier)
    · rw [List.mem_singleton.mp last]
  · rw [List.getLast?_append, List.getLast?_singleton]
    dsimp only
    rw [if_neg (by omega)]
    rfl

/-- What one step of a worker does: the worker is sound again and what it has not
reported adds up; it stores a piece of its own span, or leaves the target. -/
structure Worker.Advance (transfer : Transfer) (before : Worker × Shared)
    (after : Worker × Shared) : Prop where
  placed : (after.1.offset, after.1.length) = (before.1.offset, before.1.length)
  sound : after.1.Sound transfer after.2.target
  target : after.2.target = before.2.target ∨ ∃ start data, data ≠ [] ∧
    before.1.offset ≤ start ∧ start + data.length ≤ before.1.offset + before.1.length ∧
    after.2.target = patch 0 before.2.target start data
  counted : transfer.progress = true → after.1.phase ≠ .failed → before.1.phase ≠ .failed ∧
    after.2.reported + after.1.unreported + before.1.moved =
      before.2.reported + before.1.unreported + after.1.moved
  counts : after.2.Counts transfer.size

theorem Worker.advance (sound : worker.Sound transfer target) (positive : 0 < transfer.chunk)
    {shared : Shared} (same : shared.target = target)
    (counts : shared.Counts transfer.size) {answer : Option Nat}
    (fed : worker.starves answer = false) :
    Advance transfer (worker, shared) (worker.step transfer answer shared) := by
  subst same
  have inside := sound.inside
  have within := sound.within
  have holds := sound.holds
  -- a phase that only says what comes next
  have goes : ∀ phase : Phase, (match phase with
        | .writes data => data ≠ [] ∧ worker.moved + data.length ≤ worker.length ∧
            data = fetch transfer.source (worker.offset + worker.moved) data.length
        | .reports count => 0 < count
        | .done => worker.moved = worker.length
        | _ => True) → (phase ≠ .failed → worker.phase ≠ .failed) →
      (phase ≠ .failed → Worker.unreported { worker with phase := phase } = worker.unreported) →
      Advance transfer (worker, shared) ({ worker with phase := phase }, shared) := by
    intro phase known still kept
    refine ⟨rfl, ⟨inside, within, sound.written, known⟩, .inl rfl, fun _ alive => ⟨still alive, ?_⟩,
      counts⟩
    dsimp only
    rw [kept alive]
  unfold step
  cases phase : worker.phase with
  | done =>
      rw [phase] at holds
      have stays := goes .done holds (fun _ => by rw [phase]; simp) (fun _ => by
        rw [unreported, unreported, phase])
      rw [← phase] at stays
      exact stays
  | failed =>
      have stays := goes .failed trivial (fun alive => absurd rfl alive) (fun alive => absurd rfl alive)
      rw [← phase] at stays
      exact stays
  | reads =>
      cases answer with
      | none => exact goes .failed trivial (fun alive => absurd rfl alive) (fun alive => absurd rfl alive)
      | some count =>
          have quiet : ∀ coming : Phase, (∀ count, coming ≠ .reports count) →
              Worker.unreported { worker with phase := coming } = worker.unreported := by
            intro coming other
            rw [unreported, unreported, phase]
            dsimp only
            split
            · next count => exact absurd rfl (other count)
            · rfl
          dsimp only
          by_cases more : worker.moved < worker.length
          · have something : count ≠ 0 := by
              rintro rfl
              simp [starves, phase, more] at fed
            rw [if_pos more]
            generalize piece : fetch transfer.source (worker.offset + worker.moved)
              (min count (min transfer.chunk (worker.length - worker.moved))) = data
            have length := length_fetch transfer.source (worker.offset + worker.moved)
              (min count (min transfer.chunk (worker.length - worker.moved)))
            rw [piece] at length
            have some : data ≠ [] := by
              rintro rfl
              rw [List.length_nil] at length
              omega
            rw [if_neg (by simpa using some)]
            refine goes (.writes data) ⟨some, by omega, ?_⟩ (fun _ => by rw [phase]; simp)
              (fun _ => quiet _ (by simp))
            rw [length, ← piece, fetch, fetch, List.take_eq_take_iff, List.length_drop]
            omega
          · rw [if_neg more]
            exact goes .done (by omega) (fun _ => by rw [phase]; simp) (fun _ => quiet _ (by simp))
  | writes data =>
      cases answer with
      | none => exact goes .failed trivial (fun alive => absurd rfl alive) (fun alive => absurd rfl alive)
      | some _ =>
          rw [phase] at holds
          obtain ⟨some, room, -⟩ := holds
          have written : data.length ≠ 0 := by simpa using some
          refine ⟨rfl, ⟨inside, room, fun index first last => ?_, ?_⟩,
            .inr ⟨_, data, some, Nat.le_add_right _ _, by dsimp only; omega, rfl⟩,
            fun wanted _ => ⟨by rw [phase]; simp, ?_⟩, ⟨counts.rising, counts.most, counts.last⟩⟩
          · exact sound.stored phase index first last
          · dsimp only
            split_ifs
            · exact Nat.pos_of_ne_zero written
            · trivial
          · dsimp only
            rw [if_pos wanted, unreported, unreported, phase]
            dsimp only
            omega
  | reports count =>
      cases answer with
      | none => exact goes .failed trivial (fun alive => absurd rfl alive) (fun alive => absurd rfl alive)
      | some _ =>
          rw [phase] at holds
          refine ⟨rfl, ⟨inside, within, sound.written, trivial⟩, .inl rfl,
            fun _ _ => ⟨by rw [phase]; simp, ?_⟩, counts.report holds⟩
          dsimp only
          rw [unreported, unreported, phase]
          dsimp only
          omega

theorem picked {Item : Type} {items : List Item} {item : Item} {index : Nat}
    (found : items[index]? = some item) :
    ∃ before after, items = before ++ item :: after ∧
      ∀ moved, items.set index moved = before ++ moved :: after := by
  obtain ⟨inside, same⟩ := List.getElem?_eq_some_iff.mp found
  refine ⟨items.take index, items.drop (index + 1), ?_, fun moved => ?_⟩
  · rw [← same, List.getElem_cons_drop, List.take_append_drop]
  · rw [List.set_eq_take_append_cons_drop, if_pos inside]

theorem Pool.Sound.step {pieces : List (Nat × Nat)} {pool : Pool}
    (sound : pool.Sound transfer pieces) (positive : 0 < transfer.chunk)
    (tiles : Tiles 0 transfer.source.length pieces) {pick : Nat × Option Nat}
    (fed : pool.starves pick = false) :
    (pool.step transfer pick).Sound transfer pieces := by
  unfold Pool.step
  cases found : pool.workers[pick.1]? with
  | none => exact sound
  | some worker =>
      obtain ⟨before, after, shape, stored⟩ := picked found
      have mine := sound.each worker (List.mem_of_getElem? found)
      rw [Pool.starves, found, Option.any_some] at fed
      have advance := Worker.advance mine positive rfl sound.counts fed
      dsimp only
      generalize worker.step transfer pick.2 pool.shared = moved at advance
      obtain ⟨placed, each, bounded, counted, counts⟩ := sound
      rw [shape] at placed each counted
      -- a worker before or behind this one has another span
      have disjoint := tiles.disjoint
      rw [← placed, List.map_append, List.map_cons, List.pairwise_append, List.pairwise_cons]
        at disjoint
      obtain ⟨-, ⟨behind, -⟩, ahead⟩ := disjoint
      have others : ∀ other, other ∈ before ∨ other ∈ after →
          other.Sound transfer moved.2.target := by
        intro other member
        have kept := each other (by
          rw [List.mem_append, List.mem_cons]
          exact member.imp id .inr)
        rcases advance.target with same | ⟨start, data, some, first, last, same⟩
        · rw [same]
          exact kept
        · rw [same]
          refine kept.other some ?_
          rcases member with earlier | later
          · have apart := ahead _ (List.mem_map_of_mem earlier) _ List.mem_cons_self
            exact .inl (apart.trans first)
          · have apart := behind _ (List.mem_map_of_mem later)
            exact .inr (last.trans apart)
      refine ⟨?_, fun other member => ?_, ?_, fun wanted alive => ?_, advance.counts⟩
      · rw [stored, ← placed, List.map_append, List.map_append, List.map_cons, List.map_cons,
          advance.placed]
      · rw [stored, List.mem_append, List.mem_cons] at member
        rcases member with earlier | same | later
        · exact others other (.inl earlier)
        · rw [same]
          exact advance.sound
        · exact others other (.inr later)
      · rcases advance.target with same | ⟨start, data, some, first, last, same⟩
        · rw [same]
          exact bounded
        · have inside := mine.inside
          rw [same, length_patch 0 _ _ some]
          dsimp only at first last ⊢
          omega
      · rw [stored] at alive
        obtain ⟨still, balance⟩ := advance.counted wanted (alive moved.1 (by simp))
        have total := counted wanted (by
          intro other member
          rw [List.mem_append, List.mem_cons] at member
          rcases member with earlier | same | later
          · exact alive other (by simp [earlier])
          · rw [same]
            exact still
          · exact alive other (by simp [later]))
        rw [Pool.moved, shape] at total
        rw [Pool.moved]
        dsimp only
        rw [stored]
        simp only [List.map_append, List.map_cons, List.sum_append, List.sum_cons] at total ⊢
        dsimp only at balance
        omega

theorem launch_sound {pieces : List (Nat × Nat)} (tiles : Tiles 0 transfer.source.length pieces) :
    (launch pieces).Sound transfer pieces := by
  refine ⟨?_, fun worker member => ?_, Nat.zero_le _, fun _ _ => ?_, ⟨.nil, by simp [launch], rfl⟩⟩
  · rw [launch, List.map_map]
    exact List.map_id _
  · obtain ⟨piece, listed, rfl⟩ := List.mem_map.mp member
    obtain ⟨-, -, last⟩ := tiles.bounds piece listed
    exact ⟨last, Nat.zero_le _, fun index first last => by dsimp only at first last; omega, trivial⟩
  · rw [Pool.moved, launch, List.map_map, List.map_map]
    exact Nat.zero_add _

/-- A pool whose workers are all done has the source in the target, has moved and
reported every byte, and has failed nowhere. -/
theorem Pool.Sound.finish {pieces : List (Nat × Nat)} {pool : Pool}
    (sound : pool.Sound transfer pieces) (tiles : Tiles 0 transfer.source.length pieces)
    (finished : pool.finished = true) :
    pool.shared.target = transfer.source ∧ pool.moved = transfer.source.length ∧
      (transfer.progress = true → pool.shared.reported = transfer.source.length) := by
  have done : ∀ worker ∈ pool.workers, worker.phase = .done := by
    intro worker member
    exact of_decide_eq_true (List.all_eq_true.mp finished worker member)
  have whole : ∀ worker ∈ pool.workers, worker.moved = worker.length := by
    intro worker member
    have holds := (sound.each worker member).holds
    rw [done worker member] at holds
    exact holds
  have moved : pool.moved = transfer.source.length := by
    have total := tiles.total
    rw [← sound.placed, List.map_map, Nat.sub_zero] at total
    rw [Pool.moved, ← total]
    exact congrArg List.sum (List.map_congr_left whole)
  refine ⟨?_, moved, fun wanted => ?_⟩
  · apply List.ext_getElem?
    intro index
    by_cases inside : index < transfer.source.length
    · obtain ⟨piece, listed, first, last⟩ := tiles.covered (Nat.zero_le index) inside
      rw [← sound.placed] at listed
      obtain ⟨worker, member, rfl⟩ := List.mem_map.mp listed
      refine (sound.each worker member).written index first ?_
      rw [whole worker member]
      exact last
    · have bounded := sound.bounded
      rw [List.getElem?_eq_none (by omega), List.getElem?_eq_none (by omega)]
  · have counted := sound.counted wanted (fun worker member => by
      rw [done worker member]
      simp)
    have silent : (pool.workers.map Worker.unreported).sum = 0 := by
      have none : pool.workers.map Worker.unreported = pool.workers.map fun _ => 0 := by
        refine List.map_congr_left fun worker member => ?_
        rw [Worker.unreported, done worker member]
      rw [none]
      simp
    rw [silent, Nat.add_zero, moved] at counted
    exact counted

def Worker.effort (worker : Worker) : Nat :=
  match worker.phase with
  | .reads => 3 * (worker.length - worker.moved) + 1
  | .writes _ => 3 * (worker.length - worker.moved)
  | .reports _ => 3 * (worker.length - worker.moved) + 2
  | .done | .failed => 0

def Pool.effort (pool : Pool) : Nat := (pool.workers.map Worker.effort).sum

theorem Worker.Sound.effort (sound : worker.Sound transfer target) (busy : worker.idle = false)
    (answer : Option Nat) (shared : Shared) :
    (worker.step transfer answer shared).1.effort < worker.effort := by
  have holds := sound.holds
  unfold step
  cases phase : worker.phase with
  | done => simp [idle, phase] at busy
  | failed => simp [idle, phase] at busy
  | reads =>
      cases answer with
      | none => simp [Worker.effort, phase]
      | some count =>
          dsimp only
          rw [Worker.effort.eq_def worker, phase]
          dsimp only
          split_ifs <;> dsimp only [Worker.effort] <;> omega
  | writes data =>
      rw [phase] at holds
      obtain ⟨some, room, -⟩ := holds
      have written : data.length ≠ 0 := by simpa using some
      rw [Worker.effort.eq_def worker, phase]
      cases answer with
      | none =>
          dsimp only [Worker.effort]
          omega
      | some _ =>
          dsimp only
          split_ifs <;> dsimp only [Worker.effort] <;> omega
  | reports count =>
      rw [Worker.effort.eq_def worker, phase]
      cases answer <;> dsimp only [Worker.effort] <;> omega

theorem Pool.Sound.effort_step {pieces : List (Nat × Nat)} {pool : Pool}
    (sound : pool.Sound transfer pieces) {pick : Nat × Option Nat}
    (busy : pool.busy pick = true) : (pool.step transfer pick).effort < pool.effort := by
  unfold Pool.busy at busy
  unfold Pool.step
  cases found : pool.workers[pick.1]? with
  | none =>
      rw [found] at busy
      cases busy
  | some worker =>
      rw [found, Option.any_some, Bool.not_eq_true'] at busy
      obtain ⟨before, after, shape, stored⟩ := picked found
      have less := (sound.each worker (List.mem_of_getElem? found)).effort busy pick.2 pool.shared
      dsimp only [Pool.effort]
      rw [stored, shape]
      simp only [List.map_append, List.map_cons, List.sum_append, List.sum_cons]
      omega

end Steps

def Pool.after (picks : List (Nat × Option Nat)) (pool : Pool) : Pool :=
  run (Pool.step transfer) picks pool

variable {transfer}

theorem Pool.Sound.after {pieces : List (Nat × Nat)} {pool : Pool}
    (sound : pool.Sound transfer pieces) (positive : 0 < transfer.chunk)
    (tiles : Tiles 0 transfer.source.length pieces) {picks : List (Nat × Option Nat)}
    (fed : Fed transfer picks pool) : (pool.after transfer picks).Sound transfer pieces :=
  run_invariant (Pool.step transfer) (fun entry => entry.before.starves entry.label = false)
    (Pool.Sound transfer pieces) (fun _ _ fed sound => sound.step positive tiles fed) picks pool fed
    sound

theorem Pool.Sound.busy_length {pieces : List (Nat × Nat)} {pool : Pool}
    (sound : pool.Sound transfer pieces) (positive : 0 < transfer.chunk)
    (tiles : Tiles 0 transfer.source.length pieces) (picks : List (Nat × Option Nat))
    (fed : Fed transfer picks pool) (busy : ∀ entry ∈ history (Pool.step transfer) picks pool,
      entry.before.busy entry.label = true) : picks.length ≤ pool.effort := by
  induction picks generalizing pool with
  | nil => exact Nat.zero_le _
  | cons pick rest induction =>
      have less : (pool.step transfer pick).effort < pool.effort :=
        sound.effort_step (busy _ List.mem_cons_self)
      have kept : (pool.step transfer pick).Sound transfer pieces :=
        sound.step positive tiles (fed _ List.mem_cons_self)
      have later := induction kept (fun entry member => fed entry (List.mem_cons_of_mem _ member))
        (fun entry member => busy entry (List.mem_cons_of_mem _ member))
      rw [List.length_cons]
      omega

theorem launch_effort {size : Nat} {pieces : List (Nat × Nat)} (tiles : Tiles 0 size pieces) :
    (launch pieces).effort = 3 * size + pieces.length := by
  have total := tiles.total
  rw [Nat.sub_zero] at total
  rw [← total]
  clear total tiles
  induction pieces with
  | nil => rfl
  | cons piece rest induction =>
      rw [launch, Pool.effort] at induction ⊢
      simp only [List.map_cons, List.sum_cons, List.length_cons]
      rw [induction]
      dsimp only [Worker.effort]
      omega

theorem finished_or_failed {pool : Pool} (still : ∀ pick, pool.busy pick = false)
    (alive : ∀ worker ∈ pool.workers, worker.phase ≠ .failed) : pool.finished = true := by
  rw [Pool.finished, List.all_eq_true]
  intro worker member
  obtain ⟨index, found⟩ := List.getElem?_of_mem member
  have idle := still (index, none)
  rw [Pool.busy, found, Option.any_some, Bool.not_eq_false', Worker.idle, Bool.or_eq_true,
    decide_eq_true_eq, decide_eq_true_eq] at idle
  exact decide_eq_true (idle.resolve_right (alive worker member))

theorem Pool.alive_step {pool : Pool} {index count : Nat}
    (alive : ∀ worker ∈ pool.workers, worker.phase ≠ .failed) :
    ∀ worker ∈ (pool.step transfer (index, some count)).workers, worker.phase ≠ .failed := by
  unfold Pool.step
  cases found : pool.workers[index]? with
  | none => exact alive
  | some worker =>
      intro other member
      rcases List.mem_or_eq_of_mem_set member with earlier | rfl
      · exact alive other earlier
      · have here := alive worker (List.mem_of_getElem? found)
        unfold Worker.step
        cases phase : worker.phase with
        | failed => exact absurd phase here
        | done => simp [phase]
        | reports => simp
        | reads =>
            dsimp only
            split_ifs <;> simp
        | writes =>
            dsimp only
            split_ifs <;> simp

/-- A worker has not gone past its span, nor will by what it holds. -/
def Worker.Within (worker : Worker) : Prop :=
  match worker.phase with
  | .writes data => worker.moved + data.length ≤ worker.length
  | _ => worker.moved ≤ worker.length

def Worker.short (worker : Worker) : Bool :=
  worker.phase = .done && worker.moved < worker.length

theorem Worker.Within.most {worker : Worker} (within : worker.Within) :
    worker.moved ≤ worker.length := by
  unfold Within at within
  split at within
  · omega
  · exact within

theorem Worker.step_span (answer : Option Nat) (worker : Worker) (shared : Shared) :
    (worker.step transfer answer shared).1.length = worker.length := by
  unfold step
  split
  · rfl
  · rfl
  · rfl
  · dsimp only
    split_ifs <;> rfl
  · rfl
  · rfl

theorem Worker.Within.step {worker : Worker} (within : worker.Within) (answer : Option Nat)
    (shared : Shared) : (worker.step transfer answer shared).1.Within := by
  have most := within.most
  unfold Worker.step
  split
  · exact within
  · exact within
  · exact most
  · next count _ _ =>
      dsimp only
      split_ifs with more none
      · exact most
      · change worker.moved + (fetch _ _ _).length ≤ worker.length
        rw [length_fetch]
        omega
      · exact most
  · next data writes =>
      rw [Within, writes] at within
      dsimp only
      split_ifs <;> exact within
  · exact most

theorem Worker.short_stays {worker : Worker} (short : worker.short = true) (answer : Option Nat)
    (shared : Shared) : (worker.step transfer answer shared).1 = worker := by
  simp only [Worker.short, Bool.and_eq_true, decide_eq_true_eq] at short
  unfold step
  rw [short.1]

theorem Worker.starves_short {worker : Worker} {answer : Option Nat}
    (starves : worker.starves answer = true) (shared : Shared) :
    (worker.step transfer answer shared).1.short = true := by
  simp only [Worker.starves, Bool.and_eq_true, decide_eq_true_eq] at starves
  obtain ⟨⟨reads, more⟩, rfl⟩ := starves
  unfold step
  rw [reads]
  simp [short, more, fetch]

theorem Pool.short_step {pool : Pool} (pick : Nat × Option Nat)
    (short : pool.workers.any Worker.short = true ∨ pool.starves pick = true) :
    (pool.step transfer pick).workers.any Worker.short = true := by
  unfold step
  cases found : pool.workers[pick.1]? with
  | none =>
      rcases short with earlier | starves
      · exact earlier
      · rw [Pool.starves, found] at starves
        cases starves
  | some worker =>
      obtain ⟨before, after, shape, stored⟩ := picked found
      dsimp only
      rw [stored]
      rw [shape, Pool.starves, found, Option.any_some] at short
      simp only [List.any_append, List.any_cons, Bool.or_eq_true] at short ⊢
      rcases short with (ahead | here | behind) | starves
      · exact .inl ahead
      · exact .inr (.inl (by rw [Worker.short_stays here]; exact here))
      · exact .inr (.inr behind)
      · exact .inr (.inl (Worker.starves_short starves pool.shared))

/-- What the workers have moved is no more than their spans, and less where one is short. -/
theorem moved_short {workers : List Worker} (within : ∀ worker ∈ workers, worker.Within) :
    (workers.map Worker.moved).sum ≤ (workers.map Worker.length).sum ∧
      (workers.any Worker.short = true →
        (workers.map Worker.moved).sum < (workers.map Worker.length).sum) := by
  induction workers with
  | nil => simp
  | cons worker rest induction =>
      rw [List.forall_mem_cons] at within
      obtain ⟨most, less⟩ := induction within.2
      have here := within.1.most
      simp only [List.map_cons, List.sum_cons, List.any_cons, Bool.or_eq_true]
      refine ⟨by omega, fun short => ?_⟩
      rcases short with first | later
      · simp only [Worker.short, Bool.and_eq_true, decide_eq_true_eq] at first
        omega
      · have := less later
        omega

theorem starved_moves_less {pieces : List (Nat × Nat)} {picks : List (Nat × Option Nat)}
    (starved : ¬ Fed transfer picks (launch pieces)) :
    ((launch pieces).after transfer picks).moved < (pieces.map Prod.snd).sum := by
  have kept : ((launch pieces).after transfer picks).workers.map Worker.length =
      pieces.map Prod.snd ∧
        ∀ worker ∈ ((launch pieces).after transfer picks).workers, worker.Within := by
    refine run_invariant (Pool.step transfer) (fun _ => True)
      (fun pool => pool.workers.map Worker.length = pieces.map Prod.snd ∧
        ∀ worker ∈ pool.workers, worker.Within) ?_ picks _ (fun _ _ => trivial) ?_
    · rintro pool pick - ⟨spans, within⟩
      unfold Pool.step
      cases found : pool.workers[pick.1]? with
      | none => exact ⟨spans, within⟩
      | some worker =>
          obtain ⟨before, after, shape, stored⟩ := picked found
          have mine := within worker (List.mem_of_getElem? found)
          dsimp only
          rw [stored]
          rw [shape] at spans within
          constructor
          · rw [← spans]
            simp [Worker.step_span]
          · intro other member
            rcases List.mem_append.mp member with ahead | later
            · exact within other (List.mem_append_left _ ahead)
            · rcases List.mem_cons.mp later with rfl | behind
              · exact mine.step pick.2 pool.shared
              · exact within other (List.mem_append_right _ (List.mem_cons_of_mem _ behind))
    · refine ⟨by simp [launch], fun worker member => ?_⟩
      obtain ⟨piece, -, rfl⟩ := List.mem_map.mp member
      exact Nat.zero_le _
  have short : ((launch pieces).after transfer picks).workers.any Worker.short = true := by
    simp only [Fed, not_forall, Bool.not_eq_false] at starved
    obtain ⟨entry, member, starves⟩ := starved
    obtain ⟨first, second, shape, reached, stepped⟩ := mem_history _ member
    rw [Pool.after, shape, run_append, run, ← reached]
    exact run_invariant (Pool.step transfer) (fun _ => True)
      (fun pool => pool.workers.any Worker.short = true)
      (fun pool pick _ short => Pool.short_step pick (.inl short)) second _ (fun _ _ => trivial)
      (Pool.short_step entry.label (.inr starves))
  rw [← kept.1]
  exact (moved_short kept.2).2 short

theorem fed_some {picks : List (Nat × Option Nat)} {pool : Pool}
    (some : ∀ pick ∈ picks, pick.2 ≠ some 0) : Fed transfer picks pool := by
  intro entry member
  obtain ⟨first, second, shape, -⟩ := mem_history _ member
  have given := some entry.label (by rw [shape]; simp)
  rw [Pool.starves, Option.any_eq_false]
  intro worker _
  simp [Worker.starves, given]

/-- The spans tile the file. Whatever the order of the workers' steps and however
short the reads, the workers come to an end, and then the target is what the pump
would have left, every byte is counted and `progress` has counted up to the size. -/
theorem parallel_equals_pump (transfer : Transfer) (workers : Nat)
    (known : transfer.size = transfer.source.length) (some : 0 < transfer.size)
    (working : 0 < workers) (positive : 0 < transfer.chunk) :
    let size := transfer.size
    let pieces := spans size workers
    (pieces.length ≤ workers ∧ Tiles 0 size pieces) ∧
      ∀ picks : List (Nat × Nat),
        let labels := picks.map fun pick => (pick.1, .some (max 1 pick.2))
        let pool := (launch pieces).after transfer labels
        ((∀ entry ∈ history (Pool.step transfer) labels (launch pieces),
            entry.before.busy entry.label = true) →
          picks.length ≤ 3 * size + pieces.length) ∧
        ((∀ pick, pool.busy pick = false) →
          pool.moved = size ∧
          (∀ answers takes total, Smooth transfer.chunk answers takes →
            ∃ sink, pump transfer.source 0 transfer.chunk answers takes total {} = .some sink ∧
              pool.shared.target = sink.content) ∧
          (transfer.progress = true →
            (pool.shared.calls.map Prod.fst).Pairwise (· < ·) ∧
              pool.shared.calls.getLast? = .some (size, size))) := by
  obtain ⟨source, size, chunk, progress⟩ := transfer
  dsimp only at known some positive ⊢
  subst known
  obtain ⟨fewer, tiles⟩ := spans_tile some working
  generalize spans source.length workers = pieces at fewer tiles
  generalize shape : (⟨source, source.length, chunk, progress⟩ : Transfer) = transfer
  obtain rfl : transfer.source = source := by rw [← shape]
  obtain rfl : transfer.chunk = chunk := by rw [← shape]
  refine ⟨⟨fewer, tiles⟩, fun picks => ?_⟩
  have fed : Fed transfer (picks.map fun pick => (pick.1, Option.some (max 1 pick.2)))
      (launch pieces) := by
    apply fed_some
    intro pick member
    obtain ⟨choice, -, rfl⟩ := List.mem_map.mp member
    dsimp only
    rw [ne_eq, Option.some.injEq]
    omega
  refine ⟨fun busy => ?_, fun still => ?_⟩
  · have bound := (launch_sound tiles).busy_length positive tiles _ fed busy
    rwa [launch_effort tiles, List.length_map] at bound
  · have sound := (launch_sound tiles).after positive tiles fed
    have alive : ∀ worker ∈ ((launch pieces).after transfer
        (picks.map fun pick => (pick.1, Option.some (max 1 pick.2)))).workers,
        worker.phase ≠ .failed := by
      refine run_invariant (Pool.step transfer) (fun entry => entry.label.2 ≠ none)
        (fun pool => ∀ worker ∈ pool.workers, worker.phase ≠ .failed)
        (fun pool pick allowed alive => ?_) _ _ (fun entry member => ?_) (fun worker member => ?_)
      · obtain ⟨index, count, rfl⟩ : ∃ index count, pick = (index, Option.some count) :=
          ⟨pick.1, pick.2.get (Option.isSome_iff_ne_none.mpr allowed), by simp⟩
        exact Pool.alive_step alive
      · obtain ⟨first, second, listing, -⟩ := mem_history _ member
        have listed : entry.label ∈ picks.map fun pick =>
            (pick.1, Option.some (max 1 pick.2)) := by
          rw [listing]
          simp
        obtain ⟨pick, -, same⟩ := List.mem_map.mp listed
        rw [← same]
        simp
      · obtain ⟨piece, -, rfl⟩ := List.mem_map.mp member
        simp
    obtain ⟨target, moved, reported⟩ := sound.finish tiles (finished_or_failed still alive)
    refine ⟨moved, fun answers takes total smooth => ?_, fun wanted => ⟨sound.counts.rising, ?_⟩⟩
    · obtain ⟨sink, pumped, content, -⟩ := @pump_smooth transfer.source transfer.chunk answers takes
        total smooth positive 0 {}
      refine ⟨sink, pumped, ?_⟩
      rw [target, content, List.drop_zero]
      exact (patch_end 0 [] transfer.source).symm
    · rw [sound.counts.last, reported (by rw [← shape]; exact wanted), if_neg (by omega), ← shape]

/-- Three bytes in two spans: the second worker goes first, the first reads one
byte at a time. -/
theorem three_bytes_in_parallel :
    let transfer : Transfer := ⟨[7, 8, 9], 3, 2, true⟩
    let picks := [(0, 1), (1, 1), (1, 1), (1, 1), (0, 1), (0, 1), (0, 1), (0, 1), (0, 1), (0, 1),
      (1, 1)]
    let pool := (launch (spans 3 2)).after transfer
      (picks.map fun pick => (pick.1, some (max 1 pick.2)))
    pool.finished = true ∧ pool.shared = ⟨[7, 8, 9], 3, [(1, 3), (2, 3), (3, 3)]⟩ ∧
      pool.moved = transfer.source.length := by
  intro transfer picks pool
  refine ⟨by decide, by decide, ?_⟩
  obtain ⟨-, orders⟩ := parallel_equals_pump transfer 2 (by decide) (by decide) (by decide)
    (by decide)
  refine ((orders picks).2 fun pick => ?_).1
  change (pool.workers[pick.1]?).any _ = false
  have done : pool.workers = [⟨0, 2, 2, .done⟩, ⟨2, 1, 1, .done⟩] := by decide
  rw [done]
  match pick.1 with
  | 0 => rfl
  | 1 => rfl
  | _ + 2 => rfl

end XRootDClient.Copy
