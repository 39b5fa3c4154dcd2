import XRootDClient.Copy.Pump
import XRootDClient.Lib.Schedule

/-!
# Reading ahead

The hand-over between the thread that reads and the loop that writes, turn by turn:
a queue with room for so many pieces, a stop flag that the loop raises on its way
out, an end marker and an exception among the pieces. Each puts and takes with a
time limit of its own, so a full queue or an empty one is looked at again. Under
every schedule the loop passes on what it passes on with no thread at all, and under
every fair one both come to their end. The loop counts what it offers the writer,
which is what the writer took unless a write was short.
-/

set_option autoImplicit false

namespace XRootDClient.Copy.Readahead

open Lib Lib.BigEndian Lib.Run Lib.Schedule

inductive Event
  | write (piece : Bytes)
  | update (piece : Bytes)
  | report (done : Nat) (total : Option Nat)
  deriving DecidableEq

inductive Raiser
  | reader
  | writer
  | progress
  deriving DecidableEq

inductive Result
  | returned (done : Nat)
  | raised (raiser : Raiser)
  deriving DecidableEq

/-- What the loop is given: how the writer answers, whether there is a digest, and
which of the calls of `progress` raise, where there is one. -/
structure Ends where
  takes : Takes
  digests : Bool
  progress : Option (Nat → Bool)
  total : Option Nat

/-- What the loop has counted and called, and what the writer has taken. -/
structure Tally where
  rounds : Nat := 0
  done : Nat := 0
  accepted : Nat := 0
  events : List Event := []
  deriving DecidableEq

/-- The body of the loop. The piece is counted as the source gave it: what the writer
says it took is not looked at. -/
def Tally.round (ends : Ends) (piece : Bytes) (tally : Tally) : Tally × Option Raiser :=
  let offered : Tally :=
    { tally with rounds := tally.rounds + 1, events := tally.events ++ [.write piece] }
  match ends.takes tally.rounds with
  | none => (offered, some .writer)
  | some count =>
      let counted : Tally :=
        { offered with
          done := tally.done + piece.length
          accepted := tally.accepted + min count piece.length
          events := offered.events ++ if ends.digests then [.update piece] else [] }
      match ends.progress with
      | none => (counted, none)
      | some raises =>
          ({ counted with events := counted.events ++ [.report counted.done ends.total] },
            if raises tally.rounds then some .progress else none)

section Window

variable (source : Bytes) (chunk depth : Nat) (answers : Answers) (ends : Ends)

/-- The loop over `_chunks`: the source is asked once a piece is dealt with. -/
def pumpChunks : Nat → Nat → Nat → Tally → Tally × Result
  | 0, _, _, tally => (tally, .returned tally.done)
  | fuel + 1, asked, position, tally =>
      match answers asked with
      | none => (tally, .raised .reader)
      | some count =>
          let piece := fill source position chunk count
          if piece.isEmpty then (tally, .returned tally.done)
          else
            match tally.round ends piece with
            | (tally, some raiser) => (tally, .raised raiser)
            | (tally, none) => pumpChunks fuel (asked + 1) (position + piece.length) tally

/-- Where `_read` stands: it fills a buffer, it looks at the stop flag in `_offer`, or
it puts an item into the queue there. -/
inductive Reading
  | fills (asked position : Nat)
  | checks (item : Item) (asked position : Nat)
  | puts (item : Item) (asked position : Nat)
  | gone
  deriving DecidableEq

/-- Where the loop stands: it waits for an item, has a piece to deal with, or is in
`__exit__`, about to raise the flag, to ask whether the thread lives, to take one more
item, or out of it. -/
inductive Serving
  | gets
  | handles (piece : Bytes)
  | stops (result : Result)
  | looks (result : Result)
  | pulls (result : Result)
  | through (result : Result)
  deriving DecidableEq

structure World where
  reading : Reading
  queue : List Item := []
  stop : Bool := false
  serving : Serving := .gets
  tally : Tally := {}

/-- Where `_read` goes on once `_offer` has answered: a piece that was not wanted ends
its loop, and the end marker is offered in any case. -/
def offered (given : Bool) (item : Item) (asked position : Nat) : Reading :=
  match item with
  | .piece _ => if given then .fills asked position else .checks .end_ asked position
  | .failure => .checks .end_ asked position
  | .end_ => .gone

/-- A turn of the thread. A put that finds no room gives up after a while and the flag
is looked at again. -/
def World.reads (world : World) : World :=
  match world.reading with
  | .fills asked position =>
      match answers asked with
      | none => { world with reading := .checks .failure asked position }
      | some count =>
          let piece := fill source position chunk count
          if piece.isEmpty then { world with reading := .checks .end_ asked position }
          else
            { world with
              reading := .checks (.piece piece) (asked + 1) (position + piece.length) }
  | .checks item asked position =>
      if world.stop then { world with reading := offered false item asked position }
      else { world with reading := .puts item asked position }
  | .puts item asked position =>
      if world.queue.length < depth then
        { world with
          reading := offered true item asked position
          queue := world.queue ++ [item] }
      else { world with reading := .checks item asked position }
  | .gone => world

/-- A turn of the loop, or of `__exit__` once the loop is left. -/
def World.serves (world : World) : World :=
  match world.serving with
  | .gets =>
      match world.queue with
      | [] => world
      | .end_ :: rest =>
          { world with queue := rest, serving := .stops (.returned world.tally.done) }
      | .failure :: rest => { world with queue := rest, serving := .stops (.raised .reader) }
      | .piece piece :: rest => { world with queue := rest, serving := .handles piece }
  | .handles piece =>
      match world.tally.round ends piece with
      | (tally, some raiser) =>
          { world with tally := tally, serving := .stops (.raised raiser) }
      | (tally, none) => { world with tally := tally, serving := .gets }
  | .stops result => { world with stop := true, serving := .looks result }
  | .looks result =>
      { world with serving := if world.reading = .gone then .through result else .pulls result }
  | .pulls result => { world with queue := world.queue.tail, serving := .looks result }
  | .through _ => world

inductive Party
  | reader
  | pump
  deriving DecidableEq

def step : Party → World → World
  | .reader, world => world.reads source chunk depth answers
  | .pump, world => world.serves ends

def pumped (start : Nat) (schedule : Nat → Party) (moment : Nat) : World :=
  after (step source chunk depth answers ends) schedule { reading := .fills 0 start } moment

def pumpDirect (start : Nat) : Tally × Result :=
  pumpChunks source chunk answers ends (source.length - start + 1) 0 start {}

/-- `_pump`: what it has come to after so many turns, if it has. -/
def pump (start : Nat) (schedule : Nat → Party) (moment : Nat) : Option (Tally × Result) :=
  if 1 < depth then
    let world := pumped source chunk depth answers ends start schedule moment
    match world.serving with
    | .through result => some (world.tally, result)
    | _ => none
  else some (pumpDirect source chunk answers ends start)

end Window

def serve (ends : Ends) : List Item → Tally → Tally × Result
  | .piece piece :: rest, tally =>
      match tally.round ends piece with
      | (tally, some raiser) => (tally, .raised raiser)
      | (tally, none) => serve ends rest tally
  | .failure :: _, tally => (tally, .raised .reader)
  | _, tally => (tally, .returned tally.done)

variable {source : Bytes} {chunk depth : Nat} {answers : Answers} {ends : Ends}

theorem pump_chunks_served (fuel asked position : Nat) (tally : Tally) :
    pumpChunks source chunk answers ends fuel asked position tally =
      serve ends (script source chunk answers fuel asked position) tally := by
  induction fuel generalizing asked position tally with
  | zero => rfl
  | succ fuel induction =>
      rw [pumpChunks, script]
      cases answers asked with
      | none => rfl
      | some count =>
          dsimp only
          cases (fill source position chunk count).isEmpty with
          | true => rfl
          | false =>
              rw [if_neg (by simp), if_neg (by simp), serve]
              rcases tally.round ends (fill source position chunk count) with
                ⟨tally, none | raiser⟩
              · exact induction _ _ tally
              · rfl

theorem round_events (piece : Bytes) (tally : Tally) :
    ∃ later, (tally.round ends piece).1.events = tally.events ++ .write piece :: later := by
  unfold Tally.round
  cases ends.takes tally.rounds with
  | none => exact ⟨[], rfl⟩
  | some count =>
      dsimp only
      cases ends.progress with
      | none => exact ⟨_, List.append_assoc _ _ _⟩
      | some raises =>
          dsimp only
          rw [List.append_assoc, List.append_assoc]
          exact ⟨_, rfl⟩

theorem serve_events (items : List Item) (tally : Tally) :
    tally.events <+: (serve ends items tally).1.events := by
  induction items generalizing tally with
  | nil => exact List.prefix_refl _
  | cons item rest induction =>
      cases item with
      | end_ => exact List.prefix_refl _
      | failure => exact List.prefix_refl _
      | piece piece =>
          obtain ⟨later, called⟩ := @round_events ends piece tally
          have first : tally.events <+: (tally.round ends piece).1.events := by
            rw [called]
            exact List.prefix_append _ _
          rw [serve]
          rcases round : tally.round ends piece with ⟨next, none | raiser⟩
          · rw [round] at first
            exact first.trans (induction next)
          · rw [round] at first
            exact first

section Coming

variable (source chunk answers ends)

def following (item : Item) (asked position : Nat) : List Item :=
  match item with
  | .piece _ => script source chunk answers (source.length - position + 1) asked position
  | .failure => [.end_]
  | .end_ => []

def toOffer : Reading → List Item
  | .fills asked position =>
      script source chunk answers (source.length - position + 1) asked position
  | .checks item asked position => item :: following source chunk answers item asked position
  | .puts item asked position => item :: following source chunk answers item asked position
  | .gone => []

def World.coming (world : World) : List Item :=
  world.queue ++ toOffer source chunk answers world.reading

def World.outcome (world : World) : Tally × Result :=
  match world.serving with
  | .gets => serve ends (world.coming source chunk answers) world.tally
  | .handles piece => serve ends (.piece piece :: world.coming source chunk answers) world.tally
  | .stops result => (world.tally, result)
  | .looks result => (world.tally, result)
  | .pulls result => (world.tally, result)
  | .through result => (world.tally, result)

end Coming

def Serving.wants : Serving → Bool
  | .gets => true
  | .handles _ => true
  | _ => false

def Serving.stopped : Serving → Bool
  | .looks _ => true
  | .pulls _ => true
  | .through _ => true
  | _ => false

/-- What holds after every turn: the flag is up once `__exit__` has raised it, an end
marker comes last for a loop that waits for one, and the loop is only through once the
thread is. -/
structure World.Sound (source : Bytes) (chunk : Nat) (answers : Answers) (ends : Ends)
    (goal : Tally × Result) (world : World) : Prop where
  flag : world.stop = world.serving.stopped
  closed : world.serving.wants = true →
    (world.coming source chunk answers).getLast? = some .end_
  joined : ∀ result, world.serving = .through result → world.reading = .gone
  goal : world.outcome source chunk answers ends = goal

theorem wants_not_stopped {serving : Serving} (wants : serving.wants = true) :
    serving.stopped = false := by
  cases serving with
  | gets => rfl
  | handles piece => rfl
  | stops result => rfl
  | looks result => cases wants
  | pulls result => cases wants
  | through result => cases wants

theorem to_offer_fills (asked position : Nat) :
    toOffer source chunk answers (.fills asked position) =
      match answers asked with
      | none => toOffer source chunk answers (.checks .failure asked position)
      | some count =>
          let piece := fill source position chunk count
          if piece.isEmpty then toOffer source chunk answers (.checks .end_ asked position)
          else toOffer source chunk answers
            (.checks (.piece piece) (asked + 1) (position + piece.length)) := by
  rw [toOffer, script]
  cases answers asked with
  | none => rfl
  | some count =>
      dsimp only
      generalize filled : fill source position chunk count = piece
      cases none : piece.isEmpty with
      | true => rfl
      | false =>
          obtain ⟨inside, positive⟩ := Ahead.fill_some filled none
          rw [if_neg (by simp), if_neg (by simp), toOffer, following]
          exact congrArg _ (Ahead.script_enough _ _ (by omega) (by omega))

theorem to_offer_offered (item : Item) (asked position : Nat) :
    toOffer source chunk answers (offered true item asked position) =
      following source chunk answers item asked position := by
  cases item with
  | piece data => rfl
  | failure => rfl
  | end_ => rfl

theorem reads_coming {world : World} (wanted : world.stop = false) :
    (world.reads source chunk depth answers).coming source chunk answers =
      world.coming source chunk answers := by
  unfold World.reads
  split
  · next asked position reading =>
      rw [World.coming, World.coming, reading, to_offer_fills]
      cases answers asked with
      | none => rfl
      | some count =>
          dsimp only
          split_ifs <;> rfl
  · next item asked position reading =>
      rw [wanted, World.coming, World.coming, reading]
      rfl
  · next item asked position reading =>
      split_ifs
      · rw [World.coming, World.coming, reading]
        dsimp only
        rw [to_offer_offered, toOffer, List.append_assoc]
        rfl
      · rw [World.coming, World.coming, reading]
        rfl
  · rfl

theorem reads_frame (world : World) :
    (world.reads source chunk depth answers).serving = world.serving ∧
      (world.reads source chunk depth answers).stop = world.stop ∧
      (world.reads source chunk depth answers).tally = world.tally ∧
      (world.reading = .gone → (world.reads source chunk depth answers).reading = .gone) := by
  unfold World.reads
  split
  · next asked position reading =>
      rw [reading]
      split
      · exact ⟨rfl, rfl, rfl, fun gone => by cases gone⟩
      · dsimp only
        split_ifs <;> exact ⟨rfl, rfl, rfl, fun gone => by cases gone⟩
  · next reading =>
      rw [reading]
      split_ifs <;> exact ⟨rfl, rfl, rfl, fun gone => by cases gone⟩
  · next reading =>
      rw [reading]
      split_ifs <;> exact ⟨rfl, rfl, rfl, fun gone => by cases gone⟩
  · exact ⟨rfl, rfl, rfl, fun gone => gone⟩

variable {goal : Tally × Result} {world : World}

theorem reads_sound (sound : world.Sound source chunk answers ends goal) :
    (world.reads source chunk depth answers).Sound source chunk answers ends goal := by
  obtain ⟨serving, stop, tally, gone⟩ := @reads_frame source chunk depth answers world
  have coming : world.serving.wants = true →
      (world.reads source chunk depth answers).coming source chunk answers =
        world.coming source chunk answers := by
    intro wants
    exact reads_coming (sound.flag.trans (wants_not_stopped wants))
  constructor
  · rw [serving, stop]
    exact sound.flag
  · rw [serving]
    intro wants
    rw [coming wants]
    exact sound.closed wants
  · rw [serving]
    intro result through
    exact gone (sound.joined result through)
  · rw [← sound.goal, World.outcome, World.outcome, serving, tally]
    cases shape : world.serving with
    | gets => rw [coming (by rw [shape]; rfl)]
    | handles piece => rw [coming (by rw [shape]; rfl)]
    | stops result => rfl
    | looks result => rfl
    | pulls result => rfl
    | through result => rfl

theorem last_tail {item : Item} {rest : List Item} (other : item ≠ .end_)
    (last : (item :: rest).getLast? = some .end_) : rest.getLast? = some .end_ := by
  cases rest with
  | nil =>
      rw [List.getLast?_singleton, Option.some.injEq] at last
      exact absurd last other
  | cons next later =>
      rw [List.getLast?_cons_cons] at last
      exact last

theorem serves_sound (sound : world.Sound source chunk answers ends goal) :
    (world.serves ends).Sound source chunk answers ends goal := by
  have flag := sound.flag
  have closed := sound.closed
  have goals := sound.goal
  unfold World.serves
  split
  · next gets =>
      rw [gets] at flag closed
      rw [World.outcome, gets] at goals
      have closed := closed rfl
      split
      · exact sound
      · next rest queue =>
          rw [World.coming, queue] at goals
          exact ⟨flag, nofun, nofun, goals⟩
      · next rest queue =>
          rw [World.coming, queue] at goals
          exact ⟨flag, nofun, nofun, goals⟩
      · next piece rest queue =>
          rw [World.coming, queue] at goals closed
          exact ⟨flag, fun _ => @last_tail (.piece piece) _ nofun closed, nofun, goals⟩
  · next piece handles =>
      rw [handles] at flag closed
      rw [World.outcome, handles] at goals
      dsimp only at goals
      rw [serve] at goals
      split
      · next tally raiser round =>
          rw [round] at goals
          exact ⟨flag, nofun, nofun, goals⟩
      · next tally round =>
          rw [round] at goals
          exact ⟨flag, closed, nofun, goals⟩
  · next result stops =>
      rw [World.outcome, stops] at goals
      exact ⟨rfl, nofun, nofun, goals⟩
  · next result looks =>
      rw [looks] at flag
      rw [World.outcome, looks] at goals
      split_ifs with gone
      · exact ⟨flag, nofun, fun _ _ => gone, goals⟩
      · exact ⟨flag, nofun, nofun, goals⟩
  · next result pulls =>
      rw [pulls] at flag
      rw [World.outcome, pulls] at goals
      exact ⟨flag, nofun, nofun, goals⟩
  · exact sound

theorem step_sound (party : Party) (world : World)
    (sound : world.Sound source chunk answers ends goal) :
    (step source chunk depth answers ends party world).Sound source chunk answers ends goal := by
  cases party with
  | reader => exact reads_sound sound
  | pump => exact serves_sound sound

theorem script_closed (fuel asked position : Nat) :
    (script source chunk answers fuel asked position).getLast? = some .end_ := by
  induction fuel generalizing asked position with
  | zero => rfl
  | succ fuel induction =>
      rw [script]
      cases answers asked with
      | none => rfl
      | some count =>
          dsimp only
          split_ifs
          · rfl
          · rw [List.getLast?_cons, induction]
            rfl

theorem pumped_sound (start : Nat) (schedule : Nat → Party) (moment : Nat) :
    (pumped source chunk depth answers ends start schedule moment).Sound source chunk answers ends
      (pumpDirect source chunk answers ends start) := by
  apply after_invariant _ step_sound
  constructor
  · rfl
  · intro _
    exact script_closed _ _ _
  · nofun
  · rw [pumpDirect, pump_chunks_served]
    rfl

theorem outcome_events (world : World) :
    world.tally.events <+: (world.outcome source chunk answers ends).1.events := by
  unfold World.outcome
  split
  · exact serve_events _ _
  · exact serve_events _ _
  · exact List.prefix_refl _
  · exact List.prefix_refl _
  · exact List.prefix_refl _
  · exact List.prefix_refl _

def weight (source : Bytes) : Reading → Nat
  | .fills _ position => 4 * (source.length - position) + 7
  | .checks item _ position => cost item position
  | .puts item _ position => cost item position
  | .gone => 0
where
  cost (item : Item) (position : Nat) : Nat :=
    match item with
    | .piece _ => 4 * (source.length - position) + 10
    | .failure => 6
    | .end_ => 3

def Serving.left : Serving → Nat
  | .gets => 2
  | .handles _ => 3
  | .stops _ => 2
  | .looks _ => 1
  | .pulls _ => 1
  | .through _ => 0

def World.measure (source : Bytes) (world : World) : Nat :=
  weight source world.reading + 2 * world.queue.length + world.serving.left

def World.helper (world : World) : Party :=
  match world.serving with
  | .gets => if world.queue = [] then .reader else .pump
  | .looks _ => if world.reading = .gone then .pump else .reader
  | .pulls _ => if world.reading = .gone then .pump else .reader
  | _ => .pump

def World.wait (world : World) : Nat :=
  match world.serving, world.reading with
  | .gets, .checks _ _ _ => if world.queue = [] then 1 else 0
  | .looks _, .puts _ _ _ => 1
  | .pulls _, .puts _ _ _ => 1
  | .pulls _, .gone => 1
  | _, _ => 0

theorem weight_offered (given : Bool) (item : Item) (asked position : Nat) :
    weight source (offered given item asked position) + 3 ≤
      weight source (.checks item asked position) := by
  cases item with
  | piece data =>
      cases given with
      | true => exact Nat.le_refl _
      | false =>
          change 3 + 3 ≤ 4 * (source.length - position) + 10
          omega
  | failure => exact Nat.le_refl _
  | end_ => exact Nat.le_refl _

/-- What a turn of the thread can do: it brings the measure down, unless the thread is
gone, goes from looking at the flag to putting, or goes back because it found no room. -/
theorem reads_cases (world : World) :
    (world.reads source chunk depth answers).measure source < world.measure source ∨
    world.reading = .gone ∧ world.reads source chunk depth answers = world ∨
    (∃ item asked position, world.reading = .checks item asked position ∧ world.stop = false ∧
      world.reads source chunk depth answers =
        { world with reading := .puts item asked position }) ∨
    ∃ item asked position, world.reading = .puts item asked position ∧
      depth ≤ world.queue.length ∧
      world.reads source chunk depth answers =
        { world with reading := .checks item asked position } := by
  unfold World.reads
  split
  · next asked position reading =>
      left
      rw [World.measure, World.measure, reading]
      split
      · simp only [weight, weight.cost]
        omega
      · next count answer =>
          dsimp only
          generalize filled : fill source position chunk count = piece
          cases none : piece.isEmpty with
          | true =>
              simp only [if_true, weight, weight.cost]
              omega
          | false =>
              obtain ⟨inside, positive⟩ := Ahead.fill_some filled none
              simp only [Bool.false_eq_true, if_false, weight, weight.cost]
              omega
  · next item asked position reading =>
      split_ifs with stop
      · left
        have less := @weight_offered source false item asked position
        rw [World.measure, World.measure, reading]
        dsimp only
        omega
      · exact .inr (.inr (.inl ⟨item, asked, position, reading, by simpa using stop, rfl⟩))
  · next item asked position reading =>
      split_ifs with room
      · left
        have less : _ + 3 ≤ weight source (.puts item asked position) :=
          @weight_offered source true item asked position
        rw [World.measure, World.measure, reading, List.length_append]
        dsimp only
        rw [List.length_singleton]
        omega
      · exact .inr (.inr (.inr ⟨item, asked, position, reading, by omega, rfl⟩))
  · next reading => exact .inr (.inl ⟨reading, rfl⟩)

/-- What a turn of the loop can do: it brings the measure down, unless the queue is
empty, it goes from finding the thread alive to taking one more item, or it is over. -/
theorem serves_cases (world : World) :
    (world.serves ends).measure source < world.measure source ∨
    world.serving = .gets ∧ world.queue = [] ∧ world.serves ends = world ∨
    (∃ result, world.serving = .looks result ∧ world.reading ≠ .gone ∧
      world.serves ends = { world with serving := .pulls result }) ∨
    (∃ result, world.serving = .pulls result ∧
      world.serves ends = { world with serving := .looks result }) ∨
    ∃ result, world.serving = .through result := by
  unfold World.serves
  split
  · next gets =>
      split
      · next queue => exact .inr (.inl ⟨gets, queue, rfl⟩)
      all_goals
        next queue =>
          left
          rw [World.measure, World.measure, gets, queue, List.length_cons]
          simp only [Serving.left]
          omega
  · next piece handles =>
      left
      split
      all_goals
        rw [World.measure, World.measure, handles]
        exact Nat.lt_succ_self _
  · next result stops =>
      left
      rw [World.measure, World.measure, stops]
      exact Nat.lt_succ_self _
  · next result looks =>
      split_ifs with gone
      · left
        rw [World.measure, World.measure, looks]
        exact Nat.lt_succ_self _
      · exact .inr (.inr (.inl ⟨result, looks, gone, rfl⟩))
  · next result pulls =>
      cases queue : world.queue with
      | nil =>
          refine .inr (.inr (.inr (.inl ⟨result, pulls, ?_⟩)))
          rw [List.tail_nil, ← queue]
      | cons item rest =>
          left
          rw [World.measure, World.measure, pulls, queue, List.length_cons]
          simp only [Serving.left, List.tail_cons]
          omega
  · next result through => exact .inr (.inr (.inr (.inr ⟨result, through⟩)))

theorem step_advances (deep : 0 < depth) (party : Party) (world : World)
    (sound : world.Sound source chunk answers ends goal)
    (running : ¬∃ result, world.serving = .through result) :
    Advances (step source chunk depth answers ends) (World.measure source) World.wait World.helper
      party world := by
  have flag := sound.flag
  cases party with
  | reader =>
      rcases @reads_cases source chunk depth answers world with less | ⟨gone, same⟩ |
        ⟨item, asked, position, checks, wanted, same⟩ | ⟨item, asked, position, puts, full, same⟩
      · exact .inl less
      · right
        rw [step, same]
        refine ⟨rfl, rfl, Nat.le_refl _, fun turn => ?_⟩
        -- a thread that is gone is not waited for: its end marker is in the queue
        rw [World.helper] at turn
        split at turn
        · next gets =>
            split_ifs at turn with empty
            have closed := sound.closed (by rw [gets]; rfl)
            rw [World.coming, empty, gone] at closed
            cases closed
        · rw [if_pos gone] at turn
          cases turn
        · rw [if_pos gone] at turn
          cases turn
        · cases turn
      · right
        rw [step, same]
        rw [wanted] at flag
        cases serving : world.serving with
        | gets =>
            by_cases empty : world.queue = []
            · simp [World.measure, World.helper, World.wait, serving, checks, empty, weight]
            · simp [World.measure, World.helper, World.wait, serving, checks, empty, weight]
        | handles piece => simp [World.measure, World.helper, World.wait, serving, checks, weight]
        | stops result => simp [World.measure, World.helper, World.wait, serving, checks, weight]
        | looks result =>
            rw [serving] at flag
            cases flag
        | pulls result =>
            rw [serving] at flag
            cases flag
        | through result => exact absurd ⟨result, serving⟩ running
      · right
        have some : world.queue ≠ [] := by
          intro empty
          rw [empty, List.length_nil] at full
          omega
        rw [step, same]
        cases serving : world.serving with
        | gets => simp [World.measure, World.helper, World.wait, serving, puts, some, weight]
        | handles piece => simp [World.measure, World.helper, World.wait, serving, puts, weight]
        | stops result => simp [World.measure, World.helper, World.wait, serving, puts, weight]
        | looks result => simp [World.measure, World.helper, World.wait, serving, puts, weight]
        | pulls result => simp [World.measure, World.helper, World.wait, serving, puts, weight]
        | through result => exact absurd ⟨result, serving⟩ running
  | pump =>
      rcases @serves_cases source ends world with less | ⟨gets, empty, same⟩ |
        ⟨result, looks, alive, same⟩ | ⟨result, pulls, same⟩ | through
      · exact .inl less
      · right
        rw [step, same]
        refine ⟨rfl, rfl, Nat.le_refl _, fun turn => ?_⟩
        rw [World.helper, gets, empty] at turn
        cases turn
      · right
        rw [step, same]
        cases reading : world.reading with
        | fills asked position =>
            simp [World.measure, World.helper, World.wait, looks, reading, Serving.left]
        | checks item asked position =>
            simp [World.measure, World.helper, World.wait, looks, reading, Serving.left]
        | puts item asked position =>
            simp [World.measure, World.helper, World.wait, looks, reading, Serving.left]
        | gone => exact absurd reading alive
      · right
        rw [step, same]
        cases reading : world.reading with
        | fills asked position =>
            simp [World.measure, World.helper, World.wait, pulls, reading, Serving.left]
        | checks item asked position =>
            simp [World.measure, World.helper, World.wait, pulls, reading, Serving.left]
        | puts item asked position =>
            simp [World.measure, World.helper, World.wait, pulls, reading, Serving.left]
        | gone => simp [World.measure, World.helper, World.wait, pulls, reading, Serving.left]
      · exact absurd through running

theorem pumped_ends (deep : 0 < depth) (start : Nat) {schedule : Nat → Party}
    (fair : Fair schedule) :
    ∃ moment result,
      (pumped source chunk depth answers ends start schedule moment).serving = .through result :=
  fair_ends (step source chunk depth answers ends) step_sound (step_advances deep) fair
    (@pumped_sound source chunk depth answers ends start schedule 0)

def pieces : List Item → List Bytes
  | .piece piece :: rest => piece :: pieces rest
  | _ => []

def fails : List Item → Bool
  | .piece _ :: rest => fails rest
  | .failure :: _ => true
  | _ => false

def Ends.balks (ends : Ends) (round : Nat) : Bool :=
  (ends.takes round).isNone || ends.progress.any (· round)

def Ends.raises (ends : Ends) : List Item → Nat → Bool
  | .piece _ :: rest, round => ends.balks round || ends.raises rest (round + 1)
  | _, _ => false

def written (events : List Event) : List Bytes :=
  events.filterMap fun event =>
    match event with
    | .write piece => some piece
    | _ => none

theorem round_goes {piece : Bytes} {tally : Tally} (goes : ends.balks tally.rounds = false) :
    ∃ count after, ends.takes tally.rounds = some count ∧
      tally.round ends piece = (after, none) ∧ after.rounds = tally.rounds + 1 ∧
      after.done = tally.done + piece.length ∧
      after.accepted = tally.accepted + min count piece.length ∧
      written after.events = written tally.events ++ [piece] := by
  rw [Ends.balks, Bool.or_eq_false_iff] at goes
  obtain ⟨takes, quiet⟩ := goes
  unfold Tally.round
  cases taken : ends.takes tally.rounds with
  | none =>
      rw [taken] at takes
      cases takes
  | some count =>
      dsimp only
      have digested : written (if ends.digests then [.update piece] else []) = [] := by
        cases ends.digests <;> rfl
      cases progress : ends.progress with
      | none =>
          refine ⟨count, _, rfl, rfl, rfl, rfl, rfl, ?_⟩
          rw [written, List.filterMap_append, List.filterMap_append, ← written, ← written,
            ← written, digested, List.append_nil]
          rfl
      | some raises =>
          rw [progress, Option.any_some] at quiet
          dsimp only
          rw [quiet]
          refine ⟨count, _, rfl, rfl, rfl, rfl, rfl, ?_⟩
          rw [written, List.filterMap_append, List.filterMap_append, List.filterMap_append,
            ← written, ← written, ← written, digested, List.append_nil]
          exact List.append_nil _

theorem round_balks {piece : Bytes} {tally : Tally} (balks : ends.balks tally.rounds = true) :
    ∃ after raiser, tally.round ends piece = (after, some raiser) ∧ raiser ≠ .reader := by
  unfold Tally.round
  cases taken : ends.takes tally.rounds with
  | none => exact ⟨_, .writer, rfl, nofun⟩
  | some count =>
      rw [Ends.balks, taken] at balks
      dsimp only
      cases progress : ends.progress with
      | none =>
          rw [progress] at balks
          cases balks
      | some raises =>
          rw [progress, Option.isNone_some, Bool.false_or, Option.any_some] at balks
          dsimp only
          rw [balks]
          exact ⟨_, .progress, rfl, nofun⟩

theorem serve_raises {items : List Item} {tally : Tally}
    (raises : ends.raises items tally.rounds = true) :
    ∃ after raiser, serve ends items tally = (after, .raised raiser) ∧ raiser ≠ .reader := by
  induction items generalizing tally with
  | nil => cases raises
  | cons item rest induction =>
      cases item with
      | end_ => cases raises
      | failure => cases raises
      | piece piece =>
          rw [Ends.raises] at raises
          rw [serve]
          cases balks : ends.balks tally.rounds with
          | true =>
              obtain ⟨after, raiser, round, other⟩ := @round_balks ends piece tally balks
              rw [round]
              exact ⟨after, raiser, rfl, other⟩
          | false =>
              obtain ⟨count, after, -, round, rounds, -⟩ := @round_goes ends piece tally balks
              rw [balks, Bool.false_or, ← rounds] at raises
              rw [round]
              exact induction raises

/-- A loop none of whose rounds raises writes every piece there is, and raises what the
read raised, if one did. What it counts is what the writer took if every piece was
taken whole, and only then. -/
theorem serve_goes {items : List Item} {tally : Tally}
    (quiet : ends.raises items tally.rounds = false) :
    ∃ after, serve ends items tally =
        (after, if fails items then .raised .reader else .returned after.done) ∧
      written after.events = written tally.events ++ pieces items ∧
      (tally.accepted ≤ tally.done → after.accepted ≤ after.done ∧
        (after.accepted = after.done ↔
          tally.accepted = tally.done ∧ takesAll ends.takes items tally.rounds = true)) := by
  induction items generalizing tally with
  | nil =>
      refine ⟨tally, rfl, (List.append_nil _).symm, fun most => ⟨most, ?_⟩⟩
      exact (and_iff_left rfl).symm
  | cons item rest induction =>
      cases item with
      | end_ =>
          refine ⟨tally, rfl, (List.append_nil _).symm, fun most => ⟨most, ?_⟩⟩
          exact (and_iff_left rfl).symm
      | failure =>
          refine ⟨tally, rfl, (List.append_nil _).symm, fun most => ⟨most, ?_⟩⟩
          exact (and_iff_left rfl).symm
      | piece piece =>
          rw [Ends.raises, Bool.or_eq_false_iff] at quiet
          obtain ⟨count, next, takes, round, rounds, done, accepted, wrote⟩ :=
            @round_goes ends piece tally quiet.1
          rw [← rounds] at quiet
          obtain ⟨after, served, writes, counts⟩ := induction quiet.2
          refine ⟨after, ?_, ?_, fun most => ?_⟩
          · rw [serve, round]
            exact served
          · rw [writes, wrote, pieces, List.append_assoc]
            rfl
          · obtain ⟨bound, exactly⟩ := counts (by omega)
            refine ⟨bound, ?_⟩
            rw [exactly, rounds, takesAll, takes, Bool.and_eq_true, decide_eq_true_eq, done,
              accepted, ← and_assoc]
            exact and_congr_left fun _ => by omega

/-- As long as no report raises, this is the loop over a file: it returns the same count,
or raises as well. -/
theorem drain_served (quiet : ∀ round, ends.progress.any (· round) = false) {items : List Item}
    {sink : Sink} {tally : Tally} (rounds : tally.rounds = sink.writes)
    (done : tally.done = sink.done) :
    (drain ends.takes ends.total items sink).map Sink.done =
      match (serve ends items tally).2 with
      | .returned count => some count
      | .raised _ => none := by
  induction items generalizing sink tally with
  | nil => exact congrArg some done.symm
  | cons item rest induction =>
      cases item with
      | end_ => exact congrArg some done.symm
      | failure => rfl
      | piece piece =>
          rw [drain, serve, Sink.take, ← rounds]
          cases balks : ends.balks tally.rounds with
          | true =>
              obtain ⟨after, raiser, round, -⟩ := @round_balks ends piece tally balks
              rw [Ends.balks, quiet, Bool.or_false, Option.isNone_iff_eq_none] at balks
              rw [balks, round]
              rfl
          | false =>
              obtain ⟨count, after, takes, round, next, counted, -⟩ :=
                @round_goes ends piece tally balks
              rw [takes, round]
              apply induction
              · exact next
              · rw [counted, done]

def readings (source : Bytes) (chunk : Nat) (answers : Answers) (start : Nat) : List Item :=
  script source chunk answers (source.length - start + 1) 0 start

theorem pump_direct_served (start : Nat) :
    pumpDirect source chunk answers ends start =
      serve ends (readings source chunk answers start) {} := by
  rw [pumpDirect, pump_chunks_served, readings]

/-- The count with no thread is the writer's if nothing is counted, because a read, a
write or a report raises, or if every piece was taken whole. -/
theorem pump_direct_counts_iff (start : Nat) :
    (∀ tally count, pumpDirect source chunk answers ends start = (tally, .returned count) →
      count = tally.accepted) ↔
    fails (readings source chunk answers start) = true ∨
      ends.raises (readings source chunk answers start) 0 = true ∨
      takesAll ends.takes (readings source chunk answers start) 0 = true := by
  rw [pump_direct_served]
  generalize readings source chunk answers start = items
  cases raises : ends.raises items 0 with
  | true =>
      obtain ⟨after, raiser, served, -⟩ := @serve_raises ends items {} raises
      rw [served]
      simp
  | false =>
      obtain ⟨after, served, -, counts⟩ := @serve_goes ends items {} raises
      obtain ⟨-, exactly⟩ := counts (Nat.le_refl _)
      rw [served]
      cases fails items with
      | true => simp
      | false =>
          simp only [Bool.false_eq_true, if_false, false_or, Prod.mk.injEq, Result.returned.injEq]
          simp only [true_and] at exactly
          rw [← exactly]
          constructor
          · intro claim
            exact (claim after after.done ⟨rfl, rfl⟩).symm
          · rintro same tally count ⟨rfl, rfl⟩
            exact same.symm

/-- What reading ahead is to keep under a schedule. What has been passed on is always
the beginning of what is passed on with no thread; the pump comes to its end, always
the one it comes to with no thread, and leaves no thread behind; a read error is raised
after the pieces before it; and the count returned is what the writer took. -/
structure Faithful (source : Bytes) (chunk depth : Nat) (answers : Answers) (ends : Ends)
    (start : Nat) (schedule : Nat → Party) : Prop where
  passes : 1 < depth → ∀ moment,
    (pumped source chunk depth answers ends start schedule moment).tally.events <+:
      (pumpDirect source chunk answers ends start).1.events
  comes : ∃ moment, pump source chunk depth answers ends start schedule moment =
    some (pumpDirect source chunk answers ends start)
  same : ∀ moment outcome,
    pump source chunk depth answers ends start schedule moment = some outcome →
      outcome = pumpDirect source chunk answers ends start ∧
      (1 < depth →
        (pumped source chunk depth answers ends start schedule moment).reading = .gone)
  reraises : fails (readings source chunk answers start) = true →
    ends.raises (readings source chunk answers start) 0 = false →
    (pumpDirect source chunk answers ends start).2 = .raised .reader
  precedes : (pumpDirect source chunk answers ends start).2 = .raised .reader →
    written (pumpDirect source chunk answers ends start).1.events =
      pieces (readings source chunk answers start)
  counts : ∀ moment tally count,
    pump source chunk depth answers ends start schedule moment = some (tally, .returned count) →
      count = tally.accepted

section Settled

variable {start : Nat} {schedule : Nat → Party}

theorem pump_same {moment : Nat} {outcome : Tally × Result}
    (through : pump source chunk depth answers ends start schedule moment = some outcome) :
    outcome = pumpDirect source chunk answers ends start ∧
      (1 < depth →
        (pumped source chunk depth answers ends start schedule moment).reading = .gone) := by
  have sound := @pumped_sound source chunk depth answers ends start schedule moment
  unfold pump at through
  split_ifs at through with deep
  · dsimp only at through
    split at through
    · next result serving =>
        cases through
        have goal := sound.goal
        rw [World.outcome, serving] at goal
        exact ⟨goal, fun _ => sound.joined result serving⟩
    · cases through
  · cases through
    exact ⟨rfl, fun other => absurd other deep⟩

theorem pump_comes (fair : Fair schedule) :
    ∃ moment, pump source chunk depth answers ends start schedule moment =
      some (pumpDirect source chunk answers ends start) := by
  by_cases deep : 1 < depth
  · obtain ⟨moment, result, through⟩ :=
      @pumped_ends source chunk depth answers ends (by omega) start schedule fair
    have known : pump source chunk depth answers ends start schedule moment =
        some ((pumped source chunk depth answers ends start schedule moment).tally, result) := by
      rw [pump, if_pos deep]
      dsimp only
      rw [through]
    exact ⟨moment, by rw [known, (pump_same known).1]⟩
  · exact ⟨0, by rw [pump, if_neg deep]⟩

theorem direct_reraises (failed : fails (readings source chunk answers start) = true)
    (quiet : ends.raises (readings source chunk answers start) 0 = false) :
    (pumpDirect source chunk answers ends start).2 = .raised .reader := by
  obtain ⟨after, served, -⟩ := @serve_goes ends _ {} quiet
  rw [pump_direct_served, served, failed]
  rfl

theorem direct_precedes (reraised : (pumpDirect source chunk answers ends start).2 = .raised .reader) :
    written (pumpDirect source chunk answers ends start).1.events =
      pieces (readings source chunk answers start) := by
  rw [pump_direct_served] at reraised ⊢
  cases raises : ends.raises (readings source chunk answers start) 0 with
  | true =>
      obtain ⟨after, raiser, served, other⟩ := @serve_raises ends _ {} raises
      rw [served, Result.raised.injEq] at reraised
      exact absurd reraised other
  | false =>
      obtain ⟨after, served, writes, -⟩ := @serve_goes ends _ {} raises
      rw [served, writes]
      rfl

/-- Under every fair schedule reading ahead keeps everything, the count apart: that is
the writer's exactly when nothing is returned, because a read, a write or a report
raised, or every piece offered was taken whole. -/
theorem readahead_faithful_iff (fair : Fair schedule) :
    Faithful source chunk depth answers ends start schedule ↔
      fails (readings source chunk answers start) = true ∨
      ends.raises (readings source chunk answers start) 0 = true ∨
      takesAll ends.takes (readings source chunk answers start) 0 = true := by
  rw [← pump_direct_counts_iff]
  constructor
  · intro faithful tally count direct
    obtain ⟨moment, comes⟩ := faithful.comes
    rw [direct] at comes
    exact faithful.counts moment tally count comes
  · intro counts
    constructor
    · intro _ moment
      have sound := @pumped_sound source chunk depth answers ends start schedule moment
      rw [← sound.goal]
      exact outcome_events _
    · exact pump_comes fair
    · exact fun moment outcome through => pump_same through
    · exact direct_reraises
    · exact direct_precedes
    · intro moment tally count through
      exact counts tally count (pump_same through).1.symm

end Settled

def alternately (moment : Nat) : Party :=
  if moment % 2 = 0 then .reader else .pump

theorem alternately_fair : Fair alternately := by
  intro party start
  cases party with
  | reader => exact ⟨2 * start, by omega, by rw [alternately, if_pos (by omega)]⟩
  | pump => exact ⟨2 * start + 1, by omega, by rw [alternately, if_neg (by omega)]⟩

/-- Three bytes in chunks of two to a writer that takes so many at a time. -/
def threeBytes (most : Nat) : Ends :=
  { takes := fun _ => some most, digests := true, progress := some fun _ => false, total := some 3 }

theorem whole_writes_faithful :
    takesAll (threeBytes 2).takes (readings [1, 2, 3] 2 (fun _ => some 2) 0) 0 = true ∧
      Faithful [1, 2, 3] 2 2 (fun _ => some 2) (threeBytes 2) 0 alternately := by
  have whole : takesAll (threeBytes 2).takes (readings [1, 2, 3] 2 (fun _ => some 2) 0) 0 = true := by
    decide
  exact ⟨whole, (readahead_faithful_iff alternately_fair).mpr (.inr (.inr whole))⟩

/-- A writer that takes one byte at a time has two of the three that are counted. -/
theorem short_writes_counted :
    ¬Faithful [1, 2, 3] 2 2 (fun _ => some 2) (threeBytes 1) 0 alternately := by
  intro faithful
  obtain ⟨moment, comes⟩ := faithful.comes
  have direct : pumpDirect [1, 2, 3] 2 (fun _ => some 2) (threeBytes 1) 0 =
      ({ rounds := 2, done := 3, accepted := 2
         events := [.write [1, 2], .update [1, 2], .report 2 (some 3), .write [3], .update [3],
          .report 3 (some 3)] }, .returned 3) := by
    decide
  rw [direct] at comes
  exact absurd (faithful.counts moment _ _ comes) (by decide)

end XRootDClient.Copy.Readahead
