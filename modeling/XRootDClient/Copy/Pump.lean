import XRootDClient.Lib.BigEndian
import XRootDClient.Lib.Extent
import XRootDClient.Lib.Run

/-!
# The pump

A source is asked for one chunk after another until it answers with nothing; each
chunk is handed to the writer, digested and reported. What the writer says it took
is not looked at. With a window deeper than one chunk a thread of its own asks the
source and hands the chunks over through a queue; whichever of the two goes first
at any moment, the writer gets the same chunks in the same order.
-/

set_option autoImplicit false

namespace XRootDClient.Copy

open Lib Lib.BigEndian Lib.Extent Lib.Run

/-- How a source answers: the n-th time it is asked it raises, or gives at most so
many bytes. -/
abbrev Answers := Nat → Option Nat

inductive Item
  | piece (data : Bytes)
  | failure
  | end_
  deriving DecidableEq

/-- `_fill`: the chunk a source at a position gives, as far as it answers. -/
def fill (source : Bytes) (position chunk count : Nat) : Bytes :=
  fetch source position (min count chunk)

/-- Everything the source is asked for, from its n-th answer on. A source that
raises is not asked again, and the end is told in any case. -/
def script (source : Bytes) (chunk : Nat) (answers : Answers) : Nat → Nat → Nat → List Item
  | 0, _, _ => [.end_]
  | fuel + 1, asked, position =>
      match answers asked with
      | none => [.failure, .end_]
      | some count =>
          let piece := fill source position chunk count
          if piece.isEmpty then [.end_]
          else .piece piece :: script source chunk answers fuel (asked + 1) (position + piece.length)

/-- A writer and what the pump keeps beside it: the bytes it counted, what it
digested and how often it reported. -/
structure Sink where
  content : Bytes := []
  position : Nat := 0
  writes : Nat := 0
  done : Nat := 0
  digested : Bytes := []
  calls : List (Nat × Option Nat) := []

/-- How a writer answers: the n-th time it is offered data it raises, or takes at
most so many bytes. -/
abbrev Takes := Nat → Option Nat

/-- One round of the pump's loop; nothing when the writer raises. -/
def Sink.take (takes : Takes) (total : Option Nat) (piece : Bytes) (sink : Sink) : Option Sink :=
  (takes sink.writes).map fun count =>
    let accepted := piece.take count
    { content := patch 0 sink.content sink.position accepted
      position := sink.position + accepted.length
      writes := sink.writes + 1
      done := sink.done + piece.length
      digested := sink.digested ++ piece
      calls := sink.calls ++ [(sink.done + piece.length, total)] }

/-- The pump's loop over what the source hands over; nothing when it raises. -/
def drain (takes : Takes) (total : Option Nat) : List Item → Sink → Option Sink
  | [], sink => some sink
  | .end_ :: _, sink => some sink
  | .failure :: _, _ => none
  | .piece piece :: rest, sink => (sink.take takes total piece).bind (drain takes total rest)

def pump (source : Bytes) (start chunk : Nat) (answers : Answers) (takes : Takes)
    (total : Option Nat) (sink : Sink) : Option Sink :=
  drain takes total (script source chunk answers (source.length - start + 1) 0 start) sink

inductive Thread
  | fills (asked position : Nat)
  | offers (piece : Bytes) (asked position : Nat)
  | raises
  | ends
  | gone

inductive Loop
  | runs
  | returned
  | raised
  deriving DecidableEq

structure Ahead where
  thread : Thread
  queue : List Item := []
  sink : Sink
  loop : Loop := .runs

namespace Ahead

variable (source : Bytes) (chunk depth : Nat) (answers : Answers) (takes : Takes)
  (total : Option Nat)

def reads (ahead : Ahead) : Ahead :=
  match ahead.thread with
  | .fills asked position =>
      match answers asked with
      | none => { ahead with thread := .raises }
      | some count =>
          let piece := fill source position chunk count
          if piece.isEmpty then { ahead with thread := .ends }
          else { ahead with thread := .offers piece (asked + 1) (position + piece.length) }
  | .offers piece asked position =>
      if ahead.queue.length < depth then
        { ahead with thread := .fills asked position, queue := ahead.queue ++ [.piece piece] }
      else ahead
  | .raises =>
      if ahead.queue.length < depth then
        { ahead with thread := .ends, queue := ahead.queue ++ [.failure] }
      else ahead
  | .ends =>
      if ahead.queue.length < depth then
        { ahead with thread := .gone, queue := ahead.queue ++ [.end_] }
      else ahead
  | .gone => ahead

def writes (ahead : Ahead) : Ahead :=
  match ahead.queue with
  | [] => ahead
  | .end_ :: rest => { ahead with queue := rest, loop := .returned }
  | .failure :: rest => { ahead with queue := rest, loop := .raised }
  | .piece piece :: rest =>
      match ahead.sink.take takes total piece with
      | none => { ahead with queue := rest, loop := .raised }
      | some sink => { ahead with queue := rest, sink := sink }

/-- A step of either; the loop that has returned or raised stops both. -/
def step (loops : Bool) (ahead : Ahead) : Ahead :=
  if ahead.loop ≠ .runs then ahead
  else if loops then ahead.writes takes total
  else ahead.reads source chunk depth answers

/-- `_pump` with a deeper window, its two threads taking turns in this order. -/
def pumped (start : Nat) (sink : Sink) (turns : List Bool) : Ahead :=
  run (step source chunk depth answers takes total) turns
    { thread := .fills 0 start, sink := sink }

def toOffer : Thread → List Item
  | .fills asked position =>
      script source chunk answers (source.length - position + 1) asked position
  | .offers piece asked position =>
      .piece piece :: script source chunk answers (source.length - position + 1) asked position
  | .raises => [.failure, .end_]
  | .ends => [.end_]
  | .gone => []

def coming (ahead : Ahead) : List Item :=
  ahead.queue ++ toOffer source chunk answers ahead.thread

def outcome (ahead : Ahead) : Option Sink :=
  match ahead.loop with
  | .runs => drain takes total (ahead.coming source chunk answers) ahead.sink
  | .returned => some ahead.sink
  | .raised => none

variable {source chunk depth answers takes total}

theorem fill_some {position count : Nat} {piece : Bytes}
    (filled : fill source position chunk count = piece) (some : piece.isEmpty = false) :
    position + piece.length ≤ source.length ∧ 0 < piece.length := by
  have length : piece.length = min (min count chunk) (source.length - position) := by
    rw [← filled, fill, length_fetch]
  have positive : piece.length ≠ 0 := by
    rw [Ne, List.length_eq_zero_iff]
    intro none
    rw [none] at some
    cases some
  omega

theorem script_enough {one two : Nat} (asked position : Nat)
    (first : source.length - position < one) (second : source.length - position < two) :
    script source chunk answers one asked position =
      script source chunk answers two asked position := by
  induction one generalizing two asked position with
  | zero => omega
  | succ one induction =>
      obtain ⟨two, rfl⟩ : ∃ less, two = less + 1 := ⟨two - 1, by omega⟩
      rw [script, script]
      cases answers asked with
      | none => rfl
      | some count =>
          dsimp only
          generalize filled : fill source position chunk count = piece
          cases none : piece.isEmpty with
          | true => rfl
          | false =>
              obtain ⟨inside, positive⟩ := fill_some filled none
              have same := @induction two (asked + 1) (position + piece.length) (by omega)
                (by omega)
              rw [same]

theorem to_offer_fills (asked position : Nat) :
    toOffer source chunk answers (.fills asked position) =
      match answers asked with
      | none => toOffer source chunk answers .raises
      | some count =>
          let piece := fill source position chunk count
          if piece.isEmpty then toOffer source chunk answers .ends
          else toOffer source chunk answers
            (.offers piece (asked + 1) (position + piece.length)) := by
  rw [toOffer, script]
  cases answers asked with
  | none => rfl
  | some count =>
      dsimp only
      generalize filled : fill source position chunk count = piece
      cases none : piece.isEmpty with
      | true => rfl
      | false =>
          obtain ⟨inside, positive⟩ := fill_some filled none
          rw [if_neg (by simp), if_neg (by simp), toOffer]
          exact congrArg _ (script_enough _ _ (by omega) (by omega))

theorem reads_coming (ahead : Ahead) :
    (ahead.reads source chunk depth answers).coming source chunk answers =
      ahead.coming source chunk answers ∧
    (ahead.reads source chunk depth answers).sink = ahead.sink ∧
    (ahead.reads source chunk depth answers).loop = ahead.loop := by
  unfold reads
  split
  · next asked position thread =>
      rw [coming, coming, thread, to_offer_fills]
      cases answers asked with
      | none => exact ⟨rfl, rfl, rfl⟩
      | some count =>
          dsimp only
          split_ifs <;> exact ⟨rfl, rfl, rfl⟩
  · next piece asked position thread =>
      split_ifs
      · refine ⟨?_, rfl, rfl⟩
        rw [coming, coming, thread, toOffer, List.append_assoc]
        rfl
      · exact ⟨rfl, rfl, rfl⟩
  · next thread =>
      split_ifs
      · refine ⟨?_, rfl, rfl⟩
        rw [coming, coming, thread, toOffer, List.append_assoc]
        rfl
      · exact ⟨rfl, rfl, rfl⟩
  · next thread =>
      split_ifs
      · refine ⟨?_, rfl, rfl⟩
        rw [coming, coming, thread, toOffer, List.append_assoc]
        rfl
      · exact ⟨rfl, rfl, rfl⟩
  · exact ⟨rfl, rfl, rfl⟩

theorem writes_outcome (ahead : Ahead) (runs : ahead.loop = .runs) :
    (ahead.writes takes total).outcome source chunk answers takes total =
      ahead.outcome source chunk answers takes total := by
  have before : ahead.outcome source chunk answers takes total = drain takes total
      (ahead.queue ++ toOffer source chunk answers ahead.thread) ahead.sink := by
    rw [outcome, runs]
    rfl
  rw [before]
  unfold writes
  cases queue : ahead.queue with
  | nil =>
      rw [queue] at before
      exact before
  | cons item rest =>
      rw [List.cons_append]
      cases item with
      | end_ => rw [drain, outcome]
      | failure => rw [drain, outcome]
      | piece piece =>
          rw [drain]
          dsimp only
          cases ahead.sink.take takes total piece with
          | none => rfl
          | some sink =>
              rw [outcome]
              dsimp only
              rw [runs, coming]
              rfl

theorem step_outcome (loops : Bool) (ahead : Ahead) :
    (ahead.step source chunk depth answers takes total loops).outcome source chunk answers takes
        total =
      ahead.outcome source chunk answers takes total := by
  unfold step
  split_ifs with stopped loop
  · rfl
  · exact writes_outcome ahead (not_not.mp stopped)
  · obtain ⟨same, sink, still⟩ := @reads_coming source chunk depth answers ahead
    rw [outcome, outcome, still, same, sink]

/-- In whatever order the two take turns, a pump that returns has done what it
does with a window of one chunk. -/
theorem pumped_returns {start : Nat} {sink : Sink} {turns : List Bool}
    (returned : (pumped source chunk depth answers takes total start sink turns).loop = .returned) :
    pump source start chunk answers takes total sink =
      some (pumped source chunk depth answers takes total start sink turns).sink := by
  have same := run_invariant (step source chunk depth answers takes total) (fun _ => True)
    (fun ahead => ahead.outcome source chunk answers takes total =
      pump source start chunk answers takes total sink)
    (fun ahead loops _ known => (step_outcome loops ahead).trans known) turns
    { thread := .fills 0 start, sink := sink } (fun _ _ => trivial) rfl
  change (pumped source chunk depth answers takes total start sink turns).outcome source chunk
    answers takes total = _ at same
  rw [outcome, returned] at same
  exact same.symm

end Ahead

def given : List Item → Bytes
  | .piece piece :: rest => piece ++ given rest
  | _ => []

def takesAll (takes : Takes) : List Item → Nat → Bool
  | .piece piece :: rest, offered =>
      (match takes offered with
        | some count => piece.length ≤ count
        | none => false) && takesAll takes rest (offered + 1)
  | _, _ => true

variable {source : Bytes} {chunk : Nat} {answers : Answers} {takes : Takes} {total : Option Nat}

theorem take_some {piece : Bytes} {sink after : Sink} (taken : sink.take takes total piece = some after) :
    ∃ count, takes sink.writes = some count ∧ after = {
      content := patch 0 sink.content sink.position (piece.take count)
      position := sink.position + (piece.take count).length
      writes := sink.writes + 1
      done := sink.done + piece.length
      digested := sink.digested ++ piece
      calls := sink.calls ++ [(sink.done + piece.length, total)] } := by
  rw [Sink.take, Option.map_eq_some_iff] at taken
  obtain ⟨count, known, same⟩ := taken
  exact ⟨count, known, same.symm⟩

theorem drain_counts {items : List Item} {sink after : Sink}
    (drained : drain takes total items sink = some after) :
    after.done = sink.done + (given items).length ∧
      after.digested = sink.digested ++ given items := by
  induction items generalizing sink with
  | nil =>
      cases drained
      exact ⟨rfl, (List.append_nil _).symm⟩
  | cons item rest induction =>
      cases item with
      | end_ =>
          cases drained
          exact ⟨rfl, (List.append_nil _).symm⟩
      | failure => cases drained
      | piece piece =>
          rw [drain, Option.bind_eq_some_iff] at drained
          obtain ⟨middle, taken, drained⟩ := drained
          obtain ⟨count, -, rfl⟩ := take_some taken
          obtain ⟨done, digested⟩ := induction drained
          rw [given, List.length_append, done, digested, ← List.append_assoc, Nat.add_assoc]
          exact ⟨rfl, rfl⟩

theorem drain_whole {items : List Item} {sink after : Sink}
    (drained : drain takes total items sink = some after)
    (whole : takesAll takes items sink.writes = true) :
    after.content = patch 0 sink.content sink.position (given items) := by
  induction items generalizing sink with
  | nil =>
      cases drained
      rfl
  | cons item rest induction =>
      cases item with
      | end_ =>
          cases drained
          rfl
      | failure => cases drained
      | piece piece =>
          rw [drain, Option.bind_eq_some_iff] at drained
          obtain ⟨middle, taken, drained⟩ := drained
          obtain ⟨count, known, rfl⟩ := take_some taken
          rw [takesAll, known, Bool.and_eq_true, decide_eq_true_eq] at whole
          rw [induction drained whole.2, given]
          dsimp only
          rw [List.take_of_length_le whole.1, patch_append]

/-- A writer at its end has no more than was given, and all of it only if it took
every piece whole. -/
theorem drain_length {items : List Item} {sink after : Sink}
    (drained : drain takes total items sink = some after)
    (last : sink.position = sink.content.length) :
    after.content.length ≤ sink.content.length + (given items).length ∧
      (after.content.length = sink.content.length + (given items).length →
        takesAll takes items sink.writes = true) := by
  induction items generalizing sink with
  | nil =>
      cases drained
      exact ⟨Nat.le_refl _, fun _ => rfl⟩
  | cons item rest induction =>
      cases item with
      | end_ =>
          cases drained
          exact ⟨Nat.le_refl _, fun _ => rfl⟩
      | failure => cases drained
      | piece piece =>
          rw [drain, Option.bind_eq_some_iff] at drained
          obtain ⟨middle, taken, drained⟩ := drained
          obtain ⟨count, known, rfl⟩ := take_some taken
          have stored : patch 0 sink.content sink.position (piece.take count) =
              sink.content ++ piece.take count := by
            rw [last, patch_end]
          obtain ⟨most, only⟩ := induction drained (by
            dsimp only
            rw [stored, List.length_append, last])
          dsimp only at most only
          rw [stored, List.length_append, List.length_take] at most only
          rw [given, List.length_append, takesAll, known]
          refine ⟨by omega, fun all => ?_⟩
          rw [Bool.and_eq_true, decide_eq_true_eq]
          exact ⟨by omega, only (by omega)⟩

theorem given_script_starts (fuel asked position : Nat) :
    given (script source chunk answers fuel asked position) <+: source.drop position := by
  induction fuel generalizing asked position with
  | zero => exact List.nil_prefix
  | succ fuel induction =>
      rw [script]
      cases answers asked with
      | none => exact List.nil_prefix
      | some count =>
          dsimp only
          generalize filled : fill source position chunk count = piece
          cases none : piece.isEmpty with
          | true => exact List.nil_prefix
          | false =>
              rw [if_neg (by simp), given]
              obtain ⟨rest, split⟩ := induction (asked + 1) (position + piece.length)
              have front : source.drop position =
                  piece ++ source.drop (position + piece.length) := by
                rw [← filled]
                exact fetch_front source position (min count chunk)
              exact ⟨rest, by rw [front, ← split, List.append_assoc]⟩

/-- A source that is never silent before its end gives everything, unless it
raises. -/
theorem given_script_all {fuel : Nat} (positive : 0 < chunk)
    (steady : ∀ asked count, answers asked = some count → 0 < count) (asked position : Nat)
    (enough : source.length - position < fuel)
    (whole : .failure ∉ script source chunk answers fuel asked position) :
    given (script source chunk answers fuel asked position) = source.drop position := by
  induction fuel generalizing asked position with
  | zero => omega
  | succ fuel induction =>
      rw [script] at whole ⊢
      cases answer : answers asked with
      | none =>
          rw [answer] at whole
          exact absurd List.mem_cons_self whole
      | some count =>
          rw [answer] at whole
          dsimp only at whole ⊢
          have some := steady asked count answer
          generalize filled : fill source position chunk count = piece at whole ⊢
          have length : piece.length = min (min count chunk) (source.length - position) := by
            rw [← filled, fill, length_fetch]
          cases none : piece.isEmpty with
          | true =>
              rw [List.isEmpty_iff.mp none, List.length_nil] at length
              rw [if_pos rfl, List.drop_eq_nil_of_le (by omega)]
              rfl
          | false =>
              obtain ⟨inside, more⟩ := Ahead.fill_some filled none
              rw [none, if_neg (by simp)] at whole
              have later := induction (asked + 1) (position + piece.length) (by omega)
                (fun member => whole (List.mem_cons_of_mem _ member))
              have front : source.drop position =
                  piece ++ source.drop (position + piece.length) := by
                rw [← filled]
                exact fetch_front source position (min count chunk)
              rw [if_neg (by simp), given, later, ← front]

/-- A source that raises nowhere, before a writer that raises nowhere and takes
whole chunks. -/
structure Smooth (chunk : Nat) (answers : Answers) (takes : Takes) : Prop where
  answers : ∀ asked, ∃ count, answers asked = some count ∧ 0 < count
  takes : ∀ offered, ∃ count, takes offered = some count ∧ chunk ≤ count

theorem script_smooth (smooth : Smooth chunk answers takes) (fuel asked position : Nat) :
    .failure ∉ script source chunk answers fuel asked position ∧
      ∀ offered, takesAll takes (script source chunk answers fuel asked position) offered =
        true := by
  induction fuel generalizing asked position with
  | zero => exact ⟨by simp [script], fun _ => rfl⟩
  | succ fuel induction =>
      obtain ⟨count, answer, -⟩ := smooth.answers asked
      rw [script, answer]
      dsimp only
      generalize filled : fill source position chunk count = piece
      split_ifs
      · exact ⟨by simp, fun _ => rfl⟩
      · obtain ⟨none, whole⟩ := induction (asked + 1) (position + piece.length)
        refine ⟨by simp [none], fun offered => ?_⟩
        obtain ⟨room, known, enough⟩ := smooth.takes offered
        have short : piece.length ≤ chunk := by
          rw [← filled, fill, length_fetch]
          omega
        rw [takesAll, known, whole, Bool.and_true, decide_eq_true_eq]
        omega

theorem drain_returns {items : List Item} (none : .failure ∉ items)
    (takes_ : ∀ offered, ∃ count, takes offered = some count) (sink : Sink) :
    ∃ after, drain takes total items sink = some after := by
  induction items generalizing sink with
  | nil => exact ⟨sink, rfl⟩
  | cons item rest induction =>
      cases item with
      | end_ => exact ⟨sink, rfl⟩
      | failure => exact absurd List.mem_cons_self none
      | piece piece =>
          obtain ⟨count, known⟩ := takes_ sink.writes
          rw [drain, Sink.take, known]
          exact induction (fun member => none (List.mem_cons_of_mem _ member)) _

theorem pump_smooth (smooth : Smooth chunk answers takes) (positive : 0 < chunk) (start : Nat)
    (sink : Sink) :
    ∃ after, pump source start chunk answers takes total sink = some after ∧
      after.content = patch 0 sink.content sink.position (source.drop start) ∧
      after.done = sink.done + (source.length - start) := by
  have enough : source.length - start < source.length - start + 1 := Nat.lt_succ_self _
  obtain ⟨none, whole⟩ := @script_smooth source chunk answers takes smooth
    (source.length - start + 1) 0 start
  have all := given_script_all positive (fun asked count known => by
    obtain ⟨found, answer, some⟩ := smooth.answers asked
    rw [known, Option.some.injEq] at answer
    exact answer ▸ some) 0 start enough none
  obtain ⟨after, drained⟩ := @drain_returns takes total _ none
    (fun offered => (smooth.takes offered).imp fun _ known => known.1) sink
  refine ⟨after, drained, ?_, ?_⟩
  · rw [drain_whole drained (whole sink.writes), all]
  · rw [(drain_counts drained).1, all, List.length_drop]

end XRootDClient.Copy
