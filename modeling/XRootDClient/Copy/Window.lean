import XRootDClient.Copy.Readahead

/-!
# One window, seen twice

The hand-over between the reading thread and the loop, turn by turn, and the plain window
that knows neither a stop flag nor time limits. Every run of the first is a run of the
second: a look at the flag and a put that finds no room are no step of it, a piece that is
taken from the queue is one the writer is offered at once, and once the loop is left the
plain window stands still.
-/

set_option autoImplicit false

namespace XRootDClient.Copy.Readahead

open Lib Lib.BigEndian Lib.Run Lib.Schedule

def Item.offering (asked position : Nat) : Item → Thread
  | .piece piece => .offers piece asked position
  | .failure => .raises
  | .end_ => .ends

def Reading.thread : Reading → Thread
  | .fills asked position => .fills asked position
  | .checks item asked position => Item.offering asked position item
  | .puts item asked position => Item.offering asked position item
  | .gone => .gone

/-- The threads stand at one place, and nobody has asked for an end. -/
structure Level (world : World) (ahead : Ahead) : Prop where
  wanted : world.stop = false
  thread : ahead.thread = world.reading.thread
  queue : ahead.queue = world.queue

/-- The loop has counted what the writer was offered, and where it stands. -/
structure Counted (base : Nat) (tally : Tally) (sink : Sink) : Prop where
  rounds : tally.rounds = sink.writes
  done : tally.done = sink.done
  accepted : base + tally.accepted = sink.position

/-- How the plain loop ends where this one does. A report that raises is none of its. -/
def Ended (base : Nat) (tally : Tally) (ahead : Ahead) : Result → Prop
  | .returned done =>
      ahead.loop = .returned ∧ done = ahead.sink.done ∧ Counted base tally ahead.sink
  | .raised .progress => ahead.loop = .runs ∧ Counted base tally ahead.sink
  | .raised _ => ahead.loop = .raised

section Follows

variable (ends : Ends) (base : Nat)

/-- A piece in hand is one the plain loop has dealt with. -/
def Handled (world : World) (ahead : Ahead) (piece : Bytes) : Prop :=
  ∃ before, Counted base world.tally before ∧
    (before.take ends.takes ends.total piece = none ∧ ahead.loop = .raised ∨
      before.take ends.takes ends.total piece = some ahead.sink ∧ ahead.loop = .runs ∧
        Level world ahead)

/-- What the plain window has come to at a moment of the hand-over. -/
def Follows (world : World) (ahead : Ahead) : Prop :=
  match world.serving with
  | .gets => Level world ahead ∧ ahead.loop = .runs ∧ Counted base world.tally ahead.sink
  | .handles piece => Handled ends base world ahead piece
  | .stops result | .looks result | .pulls result | .through result =>
      Ended base world.tally ahead result

end Follows

variable {source : Bytes} {chunk depth : Nat} {answers : Answers} {ends : Ends} {base : Nat}
  {world : World} {ahead : Ahead}

/-- A put of the plain thread that finds room. -/
theorem offering_reads {item : Item} {asked position : Nat}
    (thread : ahead.thread = Item.offering asked position item)
    (room : ahead.queue.length < depth) :
    ahead.reads source chunk depth answers =
      { ahead with
        thread := (offered true item asked position).thread
        queue := ahead.queue ++ [item] } := by
  unfold Ahead.reads
  rw [thread]
  cases item with
  | piece piece => exact if_pos room
  | failure => exact if_pos room
  | end_ => exact if_pos room

theorem level_reads (level : Level world ahead) :
    Level (world.reads source chunk depth answers) ahead ∨
      Level (world.reads source chunk depth answers) (ahead.reads source chunk depth answers) := by
  obtain ⟨wanted, thread, queue⟩ := level
  unfold World.reads
  cases reading : world.reading with
  | fills asked position =>
      rw [reading] at thread
      apply Or.inr
      unfold Ahead.reads
      rw [thread]
      dsimp only [Reading.thread]
      cases answers asked with
      | none => exact ⟨wanted, rfl, queue⟩
      | some count =>
          dsimp only
          split_ifs
          · exact ⟨wanted, rfl, queue⟩
          · exact ⟨wanted, rfl, queue⟩
  | checks item asked position =>
      rw [reading] at thread
      have calm : ¬world.stop = true := by
        rw [wanted]
        exact Bool.false_ne_true
      dsimp only
      rw [if_neg calm]
      exact .inl ⟨wanted, thread, queue⟩
  | puts item asked position =>
      rw [reading] at thread
      dsimp only
      by_cases room : world.queue.length < depth
      · apply Or.inr
        rw [if_pos room]
        rw [← queue] at room
        rw [offering_reads thread room]
        exact ⟨wanted, rfl, congrArg (· ++ [item]) queue⟩
      · rw [if_neg room]
        exact .inl ⟨wanted, thread, queue⟩
  | gone =>
      rw [reading] at thread
      exact .inl ⟨wanted, by rw [thread, reading], queue⟩

/-- What a round comes to: the writer raises, or it takes the piece and the report may raise. -/
theorem round_cases (ends : Ends) (piece : Bytes) (tally : Tally) :
    (ends.takes tally.rounds = none ∧ ∃ after, tally.round ends piece = (after, some .writer)) ∨
      ∃ count after, ends.takes tally.rounds = some count ∧ after.rounds = tally.rounds + 1 ∧
        after.done = tally.done + piece.length ∧
        after.accepted = tally.accepted + min count piece.length ∧
        (tally.round ends piece = (after, none) ∨
          tally.round ends piece = (after, some .progress)) := by
  unfold Tally.round
  cases taken : ends.takes tally.rounds with
  | none => exact .inl ⟨rfl, _, rfl⟩
  | some count =>
      apply Or.inr
      dsimp only
      cases ends.progress with
      | none => exact ⟨count, _, rfl, rfl, rfl, rfl, .inl rfl⟩
      | some raises =>
          dsimp only
          cases raises tally.rounds with
          | false => exact ⟨count, _, rfl, rfl, rfl, rfl, .inl rfl⟩
          | true => exact ⟨count, _, rfl, rfl, rfl, rfl, .inr rfl⟩

theorem counted_round {piece : Bytes} {count : Nat} {tally after : Tally} {sink : Sink}
    (counted : Counted base tally sink) (taken : ends.takes tally.rounds = some count)
    (rounds : after.rounds = tally.rounds + 1) (done : after.done = tally.done + piece.length)
    (accepted : after.accepted = tally.accepted + min count piece.length) :
    ∃ later, sink.take ends.takes ends.total piece = some later ∧ Counted base after later := by
  rw [counted.rounds] at taken
  rw [Sink.take, taken]
  refine ⟨_, rfl, ?_, ?_, ?_⟩
  · rw [rounds, counted.rounds]
  · rw [done, counted.done]
  · rw [accepted, ← Nat.add_assoc, counted.accepted, ← List.length_take]

theorem handles_follows {piece : Bytes} (serving : world.serving = .handles piece)
    (handled : Handled ends base world ahead piece) :
    Follows ends base (world.serves ends) ahead := by
  obtain ⟨before, counted, outcome⟩ := handled
  unfold World.serves
  rw [serving]
  dsimp only
  rcases round_cases ends piece world.tally with ⟨raises, after, round⟩ |
      ⟨count, after, taken, rounds, done, accepted, rest⟩
  · rw [round]
    rw [counted.rounds] at raises
    rcases outcome with ⟨-, raised⟩ | ⟨took, -⟩
    · exact raised
    · rw [Sink.take, raises] at took
      cases took
  · obtain ⟨later, took, level⟩ := counted_round counted taken rounds done accepted
    rw [took] at outcome
    rcases outcome with ⟨none, -⟩ | ⟨same, runs, place⟩
    · cases none
    · cases same
      rcases rest with round | round
      · rw [round]
        exact ⟨⟨place.wanted, place.thread, place.queue⟩, runs, level⟩
      · rw [round]
        exact ⟨runs, level⟩

/-- What the loop takes from the queue the plain one takes too, and offers it at once. -/
theorem gets_follows (serving : world.serving = .gets) (level : Level world ahead)
    (runs : ahead.loop = .runs) (counted : Counted base world.tally ahead.sink) :
    Follows ends base (world.serves ends) ahead ∨
      Follows ends base (world.serves ends) (ahead.writes ends.takes ends.total) := by
  unfold World.serves Ahead.writes
  rw [serving, level.queue]
  cases queue : world.queue with
  | nil =>
      apply Or.inl
      unfold Follows
      rw [serving]
      exact ⟨level, runs, counted⟩
  | cons item rest =>
      apply Or.inr
      cases item with
      | end_ => exact ⟨rfl, counted.done, counted⟩
      | failure => exact rfl
      | piece piece =>
          dsimp only
          cases took : ahead.sink.take ends.takes ends.total piece with
          | none => exact ⟨ahead.sink, counted, .inl ⟨took, rfl⟩⟩
          | some sink =>
              exact ⟨ahead.sink, counted, .inr ⟨took, runs, level.wanted, level.thread, rfl⟩⟩

theorem reads_follows (follows : Follows ends base world ahead) :
    Follows ends base (world.reads source chunk depth answers) ahead ∨
      ahead.loop = .runs ∧ Follows ends base (world.reads source chunk depth answers)
        (ahead.reads source chunk depth answers) := by
  obtain ⟨serving, -, tally, -⟩ := @reads_frame source chunk depth answers world
  obtain ⟨-, sink, loop⟩ := @Ahead.reads_coming source chunk depth answers ahead
  unfold Follows at follows ⊢
  rw [serving, tally]
  generalize world.serving = here at follows ⊢
  cases here with
  | gets =>
      obtain ⟨level, runs, counted⟩ := follows
      rcases level_reads level with still | onward
      · exact .inl ⟨still, runs, counted⟩
      · exact .inr ⟨runs, onward, loop.trans runs, sink.symm ▸ counted⟩
  | handles piece =>
      obtain ⟨before, counted, outcome⟩ := follows
      rw [← tally] at counted
      rcases outcome with raised | ⟨took, runs, level⟩
      · exact .inl ⟨before, counted, .inl raised⟩
      · rcases level_reads level with still | onward
        · exact .inl ⟨before, counted, .inr ⟨took, runs, still⟩⟩
        · exact .inr ⟨runs, before, counted, .inr ⟨sink.symm ▸ took, loop.trans runs, onward⟩⟩
  | stops result => exact .inl follows
  | looks result => exact .inl follows
  | pulls result => exact .inl follows
  | through result => exact .inl follows

theorem serves_follows (follows : Follows ends base world ahead) :
    Follows ends base (world.serves ends) ahead ∨
      ahead.loop = .runs ∧
        Follows ends base (world.serves ends) (ahead.writes ends.takes ends.total) := by
  cases serving : world.serving with
  | gets =>
      unfold Follows at follows
      rw [serving] at follows
      obtain ⟨level, runs, counted⟩ := follows
      exact (gets_follows serving level runs counted).imp_right fun onward => ⟨runs, onward⟩
  | handles piece =>
      unfold Follows at follows
      rw [serving] at follows
      exact .inl (handles_follows serving follows)
  | stops result =>
      apply Or.inl
      unfold Follows World.serves at *
      rw [serving] at follows ⊢
      exact follows
  | looks result =>
      apply Or.inl
      unfold Follows World.serves at *
      rw [serving] at follows ⊢
      dsimp only
      split_ifs
      · exact follows
      · exact follows
  | pulls result =>
      apply Or.inl
      unfold Follows World.serves at *
      rw [serving] at follows ⊢
      exact follows
  | through result =>
      apply Or.inl
      unfold Follows World.serves at *
      rw [serving] at follows ⊢
      dsimp only
      rw [serving]
      exact follows

theorem step_follows (party : Party) (follows : Follows ends base world ahead) :
    Follows ends base (step source chunk depth answers ends party world) ahead ∨
      ∃ loops, Follows ends base (step source chunk depth answers ends party world)
        (ahead.step source chunk depth answers ends.takes ends.total loops) := by
  cases party with
  | reader =>
      refine (reads_follows follows).imp_right fun onward => ⟨false, ?_⟩
      rw [Ahead.step, if_neg (not_not.mpr onward.1), if_neg Bool.false_ne_true]
      exact onward.2
  | pump =>
      refine (serves_follows follows).imp_right fun onward => ⟨true, ?_⟩
      rw [Ahead.step, if_neg (not_not.mpr onward.1), if_pos rfl]
      exact onward.2

theorem pumped_follows {start : Nat} {sink : Sink} (fresh : sink.writes = 0) (none : sink.done = 0)
    (schedule : Nat → Party) (moment : Nat) :
    ∃ turns, Follows ends sink.position
      (pumped source chunk depth answers ends start schedule moment)
      (Ahead.pumped source chunk depth answers ends.takes ends.total start sink turns) := by
  induction moment with
  | zero => exact ⟨[], ⟨rfl, rfl, rfl⟩, rfl, fresh.symm, none.symm, rfl⟩
  | succ moment induction =>
      obtain ⟨turns, follows⟩ := induction
      rw [pumped, after_succ]
      rcases step_follows (schedule moment) follows with still | ⟨loops, onward⟩
      · exact ⟨turns, still⟩
      · refine ⟨turns ++ [loops], ?_⟩
        rw [Ahead.pumped, run_append]
        exact onward

/-- A hand-over that returns is a plain window that returns, and what it counts is what the
pump of one chunk counts. -/
theorem pump_window {start done : Nat} {sink : Sink} (fresh : sink.writes = 0)
    (none : sink.done = 0) {schedule : Nat → Party} {moment : Nat}
    (through : (pumped source chunk depth answers ends start schedule moment).serving =
      .through (.returned done)) :
    ∃ turns, (Ahead.pumped source chunk depth answers ends.takes ends.total start sink
        turns).loop = .returned ∧
      Copy.pump source start chunk answers ends.takes ends.total sink =
        some (Ahead.pumped source chunk depth answers ends.takes ends.total start sink turns).sink ∧
      Counted sink.position (pumped source chunk depth answers ends start schedule moment).tally
        (Ahead.pumped source chunk depth answers ends.takes ends.total start sink turns).sink := by
  obtain ⟨turns, follows⟩ := @pumped_follows source chunk depth answers ends start sink fresh none
    schedule moment
  unfold Follows at follows
  rw [through] at follows
  obtain ⟨returned, -, counted⟩ := follows
  exact ⟨turns, returned, Ahead.pumped_returns returned, counted⟩

end XRootDClient.Copy.Readahead
