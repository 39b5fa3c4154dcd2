import XRootDClient.Proto.Terminal
import XRootDClient.Session.Listening

/-!
# Waiting is bounded

A call sleeps no longer than the cap and sends its request again no more often than the
limit. The seconds a server asks for are signed, and the loop has several ways out: a call
sleeps for a time that is not negative and leaves no stream behind exactly when every wait
it sleeps on is for such a time, and the machine has reported the end of the stream by the
time the call leaves with an answer, or with the error that it was asked to wait too often.
-/

set_option autoImplicit false

namespace XRootDClient.Sync

open Lib Lib.BigEndian Lib.Stateful Auth Proto

variable {Body : Type}

def delays (trace : List Action) : List ℚ :=
  trace.filterMap fun
    | .slept seconds => some seconds
    | _ => none

def resends (trace : List Action) : Nat := trace.count .resent

/-- Whether a call leaves with an answer or an error of its own. -/
def Exit.leaves : Exit → Bool
  | .raised _ => false
  | _ => true

/-- An event the loop of `_await` comes to, with the variables of the loop and the events
from it on that were reported since the request was submitted. -/
structure Met where
  event : Event
  progress : Progress
  fresh : List Event

section Meeting

variable (caller : Caller) (sid : Nat)

def metIn : Nat → List Event → Progress → Session Body → List Met
  | _, [], _, _ => []
  | stale, event :: rest, progress, session =>
      ⟨event, progress, (event :: rest).drop stale⟩ ::
        match heed caller sid event progress session with
        | (some _, _, _) => []
        | (none, progress, session) => metIn (stale - 1) rest progress session

variable [Exchange Body] (installation : Installation Body)

/-- The events the loop comes to. The first of them may be stale: they were there before the
request was submitted. -/
def met (pathid : Nat) : List Arrival → Nat → List Event → Progress → Session Body → List Met
  | [], stale, events, progress, session => metIn caller sid stale events progress session
  | arrival :: rest, stale, events, progress, session =>
      metIn caller sid stale events progress session ++
        match handle caller sid events progress session with
        | (some _, _, _) => []
        | (none, progress, session) =>
            match session.listen installation sid pathid arrival with
            | .ok mine session => met pathid rest (stale - events.length) mine progress session
            | .error _ _ => []

end Meeting

/-- `on_chunk` raises when it is passed the rest of a body. -/
def refuses (caller : Caller) (data : Bytes) (progress : Progress) : Bool :=
  caller.onChunk.isSome && progress.streamed < data.length &&
    (pass caller (data.drop progress.streamed) progress).1.isSome

/-- A wait that is slept on is not negative; an answer, or a wait past the limit, finds the
stream ended, or goes with the data path it came on. -/
def Orderly (caller : Caller) (limit : Int) (onPath : Bool) (sid : Nat) (met : Met) : Prop :=
  let finished := ∃ event ∈ met.fresh, event.ends sid = true
  match met.event with
  | .completed _ _ data _ => refuses caller data met.progress = true ∨ finished
  | .failed _ _ _ => onPath = true ∨ finished
  | .waiting _ _ seconds _ true =>
      if (met.progress.waits + 1 : Int) ≤ limit then 0 ≤ seconds else onPath = true ∨ finished
  | _ => True

instance (caller : Caller) (limit : Int) (onPath : Bool) (sid : Nat) (met : Met) :
    Decidable (Orderly caller limit onPath sid met) :=
  match met with
  | ⟨.completed _ _ data _, progress, fresh⟩ =>
      inferInstanceAs (Decidable
        (refuses caller data progress = true ∨ ∃ event ∈ fresh, event.ends sid = true))
  | ⟨.failed _ _ _, _, fresh⟩ =>
      inferInstanceAs (Decidable (onPath = true ∨ ∃ event ∈ fresh, event.ends sid = true))
  | ⟨.waiting _ _ seconds _ true, progress, fresh⟩ =>
      inferInstanceAs (Decidable (if (progress.waits + 1 : Int) ≤ limit then 0 ≤ seconds
        else onPath = true ∨ ∃ event ∈ fresh, event.ends sid = true))
  | ⟨.waiting _ _ _ _ false, _, _⟩ => isTrue trivial
  | ⟨.chunk _ _ _, _, _⟩ => isTrue trivial
  | ⟨.redirected _ _ _, _, _⟩ => isTrue trivial
  | ⟨.negotiated _, _, _⟩ => isTrue trivial
  | ⟨.needTls _, _, _⟩ => isTrue trivial
  | ⟨.ready _ _, _, _⟩ => isTrue trivial
  | ⟨.attention _, _, _⟩ => isTrue trivial
  | ⟨.pathLost _ _, _, _⟩ => isTrue trivial
  | ⟨.disconnected _, _, _⟩ => isTrue trivial

def Forward (trace : List Action) : Prop := ∀ seconds ∈ delays trace, 0 ≤ seconds

/-- The call has slept forward, and leaves no stream behind that it does not drop with its
data path. -/
def Unharmed (onPath : Bool) (sid : Nat) (outcome : Outcome Body) : Prop :=
  Forward outcome.2.1.trace ∧
    match outcome.1 with
    | some (.returned _) => ¬outcome.2.2.machine.inFlight sid
    | some (.failed _) | some (.redirectRequired _) | some (.waitLimitError _ _) =>
        onPath = true ∨ ¬outcome.2.2.machine.inFlight sid
    | none | some (.raised _) => True

theorem forward_passed (trace : List Action) (data : Bytes) :
    Forward (trace ++ [.passed data]) ↔ Forward trace := by
  simp [Forward, delays]

theorem forward_slept (trace : List Action) (seconds : ℚ) :
    Forward (trace ++ [.slept seconds]) ↔ Forward trace ∧ 0 ≤ seconds := by
  simp only [Forward, delays, List.filterMap_append, List.forall_mem_append]
  simp

theorem forward_resent (trace : List Action) : Forward (trace ++ [.resent]) ↔ Forward trace := by
  simp [Forward, delays]

theorem pass_trace (caller : Caller) (data : Bytes) (progress : Progress) :
    (pass caller data progress).2.waits = progress.waits ∧
      (Forward (pass caller data progress).2.trace ↔ Forward progress.trace) := by
  unfold pass
  cases caller.onChunk with
  | none => exact ⟨rfl, Iff.rfl⟩
  | some onChunk => exact ⟨rfl, forward_passed _ _⟩

/-- What one event comes to: the call leaves unharmed exactly when the event is orderly, or
it goes on, with the streams as they were. -/
inductive Heeds (caller : Caller) (onPath : Bool) (sid : Nat) (met : Met)
    (session : Session Body) : Outcome Body → Prop
  | leaves {exit : Exit} {progress : Progress} {after : Session Body}
      (unharmed : Unharmed onPath sid (some exit, progress, after) ↔ Forward met.progress.trace ∧
        Orderly caller session.machine.config.redirectLimit onPath sid met) :
      Heeds caller onPath sid met session (some exit, progress, after)
  | goes {progress : Progress} {machine : Machine Body} (only : OutOnly session.machine machine)
      (going : met.event.terminal = false)
      (forward : Forward progress.trace ↔ Forward met.progress.trace ∧
        Orderly caller session.machine.config.redirectLimit onPath sid met) :
      Heeds caller onPath sid met session (none, progress, { session with machine })

variable {caller : Caller} {onPath : Bool} {sid : Nat} {session : Session Body}
  {progress : Progress} {fresh : List Event}

theorem resend_heeds {seconds : ℚ} {request : Request} {message : Text} {streamid : Nat}
    (within : ¬session.machine.config.redirectLimit < (progress.waits + 1 : Nat)) :
    Heeds caller onPath sid ⟨.waiting streamid request seconds message true, progress, fresh⟩
      session (resend caller sid seconds { progress with waits := progress.waits + 1 } session) := by
  have limit : (progress.waits + 1 : Int) ≤ session.machine.config.redirectLimit := by
    push_cast at within
    omega
  have orderly : Orderly caller session.machine.config.redirectLimit onPath sid
      ⟨.waiting streamid request seconds message true, progress, fresh⟩ ↔ 0 ≤ seconds := by
    unfold Orderly
    dsimp only
    rw [if_pos limit]
  unfold resend
  dsimp only
  split_ifs with negative
  · apply Heeds.leaves
    rw [orderly, Unharmed, forward_slept, and_true]
  · have positive : 0 ≤ seconds := not_lt.mp negative
    obtain ⟨resumed, first, left⟩ := Session.resume_final sid session
    cases done : Session.onMachine (Machine.resume sid) session with
    | error error after =>
        apply Heeds.leaves
        rw [orderly, Unharmed, forward_slept, and_true]
    | ok value after =>
        rw [done] at left
        obtain rfl : after = { session with machine := resumed } := left
        obtain ⟨flushed, second, later⟩ := Session.flush_final
          (caller.resends (progress.waits + 1)) { session with machine := resumed }
        dsimp only
        cases sent : Session.flush (caller.resends (progress.waits + 1))
            { session with machine := resumed } with
        | error error after =>
            apply Heeds.leaves
            rw [orderly, Unharmed, forward_resent, forward_slept, and_true]
        | ok value after =>
            rw [sent] at later
            obtain rfl : after = { session with machine := flushed } := later
            apply Heeds.goes (first.trans second) rfl
            rw [orderly, forward_resent, forward_slept]

/-- What an event of the stream comes to, when the stream is in flight unless it is over. -/
theorem heed_heeds (event : Event)
    (known : session.machine.inFlight sid ↔ ∀ event ∈ fresh, event.ends sid = false) :
    Heeds caller onPath sid ⟨event, progress, fresh⟩ session
      (heed caller sid event progress session) := by
  have finished : ¬session.machine.inFlight sid ↔ ∃ event ∈ fresh, event.ends sid = true := by
    rw [known]
    push Not
    simp only [Bool.not_eq_false]
  have quiet : ∀ event : Event, (∀ caller limit onPath, Orderly caller limit onPath sid
      ⟨event, progress, fresh⟩) → event.terminal = false →
      Heeds caller onPath sid ⟨event, progress, fresh⟩ session (none, progress, session) := by
    intro event orderly going
    apply Heeds.goes (OutOnly.refl _) going
    exact ⟨fun forward => ⟨forward, orderly _ _ _⟩, fun both => both.1⟩
  cases event with
  | completed streamid request data status =>
      have passed := pass_trace caller (data.drop progress.streamed) progress
      unfold heed
      dsimp only
      by_cases asked : (caller.onChunk.isSome && decide (progress.streamed < data.length)) = true
      · rw [if_pos asked]
        cases told : pass caller (data.drop progress.streamed) progress with
        | mk raises left =>
            rw [told] at passed
            cases raises with
            | some error =>
                apply Heeds.leaves
                simp [Unharmed, Orderly, refuses, asked, told, passed.2]
            | none =>
                apply Heeds.leaves
                simp [Unharmed, Orderly, refuses, asked, told, passed.2, finished]
      · rw [if_neg asked]
        apply Heeds.leaves
        simp [Unharmed, Orderly, refuses, Bool.eq_false_iff.mpr asked, finished]
  | failed streamid request error =>
      apply Heeds.leaves
      unfold Unharmed Orderly
      dsimp only
      rw [finished]
  | chunk streamid request data =>
      have passed := pass_trace caller data progress
      unfold heed
      dsimp only
      cases told : pass caller data progress with
      | mk raises left =>
          rw [told] at passed
          cases raises with
          | some error =>
              apply Heeds.leaves
              simp [Unharmed, Orderly, passed.2]
          | none =>
              apply Heeds.goes (OutOnly.refl _) rfl
              simp [Orderly, passed.2]
  | redirected streamid request target =>
      apply Heeds.leaves
      have gone : ¬(Machine.release sid session.machine).inFlight sid := fun held =>
        ((Machine.in_flight_release sid sid session.machine).mp held).1 rfl
      simp [Unharmed, Orderly, gone]
  | waiting streamid request seconds message again =>
      cases again with
      | false => exact quiet _ (fun _ _ _ => trivial) rfl
      | true =>
          unfold heed
          dsimp only
          split_ifs with spent
          · apply Heeds.leaves
            have limit : ¬(progress.waits + 1 : Int) ≤ session.machine.config.redirectLimit := by
              push_cast at spent
              omega
            unfold Unharmed Orderly
            dsimp only
            rw [if_neg limit, finished]
          · exact resend_heeds spent
  | negotiated | needTls | ready | attention | pathLost | disconnected =>
      exact quiet _ (fun _ _ _ => trivial) rfl

/-- Where the loop stands: the stream is in flight unless one of the events that are there,
and that was reported since the submission, ends it. -/
def Stands (sid stale : Nat) (events : List Event) (session : Session Body) : Prop :=
  session.machine.inFlight sid ↔ ∀ event ∈ events.drop stale, event.ends sid = false

theorem Stands.next {stale : Nat} {event : Event} {rest : List Event} {machine : Machine Body}
    (stands : Stands sid stale (event :: rest) session) (only : OutOnly session.machine machine)
    (going : event.terminal = false) :
    Stands sid (stale - 1) rest { session with machine } := by
  unfold Stands at *
  rw [only.inFlight, stands]
  cases stale with
  | zero =>
      have open_ : event.ends sid = false := by simp [Event.ends, going]
      simp [open_]
  | succ stale => rfl

theorem handle_unharmed {stale : Nat} {events : List Event}
    (stands : Stands sid stale events session) :
    (∃ exit after left, handle caller sid events progress session = (some exit, after, left) ∧
      (Unharmed onPath sid (some exit, after, left) ↔ Forward progress.trace ∧
        ∀ step ∈ metIn caller sid stale events progress session,
          Orderly caller session.machine.config.redirectLimit onPath sid step)) ∨
    ∃ after machine, handle caller sid events progress session =
        (none, after, { session with machine }) ∧ OutOnly session.machine machine ∧
      machine.inFlight sid ∧ (Forward after.trace ↔ Forward progress.trace ∧
        ∀ step ∈ metIn caller sid stale events progress session,
          Orderly caller session.machine.config.redirectLimit onPath sid step) := by
  induction events generalizing stale progress session with
  | nil =>
      refine Or.inr ⟨progress, session.machine, rfl, OutOnly.refl _, ?_, ?_⟩
      · exact Iff.mpr stands (by simp)
      · simp [metIn]
  | cons event rest induction =>
      have heeds := @heed_heeds Body caller onPath sid session progress
        ((event :: rest).drop stale) event stands
      unfold handle metIn
      generalize heed caller sid event progress session = outcome at heeds
      cases heeds with
      | leaves unharmed =>
          refine Or.inl ⟨_, _, _, rfl, ?_⟩
          rw [unharmed]
          simp
      | goes only going forward =>
          have config := only.config
          rcases induction (stands.next only going) with
            ⟨exit, after, left, ran, unharmed⟩ | ⟨after, machine, ran, later, flying, forth⟩
          · refine Or.inl ⟨exit, after, left, ran, ?_⟩
            rw [unharmed, forward, config, List.forall_mem_cons, and_assoc]
          · refine Or.inr ⟨after, machine, ran, only.trans later, flying, ?_⟩
            rw [forth, forward, config, List.forall_mem_cons, and_assoc]

/-- The delays are capped, and a resend is within the limit. -/
structure Within (limit : Int) (cap : ℚ) (progress : Progress) : Prop where
  capped : ∀ seconds ∈ delays progress.trace, seconds ≤ cap
  counted : resends progress.trace ≤ progress.waits
  limited : (resends progress.trace : Int) ≤ max limit 0

theorem Within.passed {limit : Int} {cap : ℚ} (within : Within limit cap progress)
    (data : Bytes) : Within limit cap (pass caller data progress).2 := by
  unfold pass
  cases caller.onChunk with
  | none => exact within
  | some onChunk =>
      constructor
      · have same : delays (progress.trace ++ [.passed data]) = delays progress.trace := by
          simp [delays]
        rw [same]
        exact within.capped
      · have same : resends (progress.trace ++ [.passed data]) = resends progress.trace := by
          simp [resends]
        rw [same]
        exact within.counted
      · have same : resends (progress.trace ++ [.passed data]) = resends progress.trace := by
          simp [resends]
        rw [same]
        exact within.limited

theorem Within.slept {limit : Int} {cap seconds : ℚ} (within : Within limit cap progress)
    (below : seconds ≤ cap) :
    Within limit cap { progress with
      waits := progress.waits + 1, trace := progress.trace ++ [.slept seconds] } := by
  have same : resends (progress.trace ++ [.slept seconds]) = resends progress.trace := by
    simp [resends]
  constructor
  · simp only [delays, List.filterMap_append, List.forall_mem_append]
    exact ⟨within.capped, by simpa using below⟩
  · rw [same]
    exact Nat.le_succ_of_le within.counted
  · rw [same]
    exact within.limited

theorem Within.resent {limit : Int} {cap : ℚ} {waits : Nat} (within : Within limit cap progress)
    (counted : resends progress.trace + 1 ≤ waits) (below : (waits : Int) ≤ limit) :
    Within limit cap { progress with waits, trace := progress.trace ++ [.resent] } := by
  have more : resends (progress.trace ++ [.resent]) = resends progress.trace + 1 := by
    simp [resends]
  constructor
  · have same : delays (progress.trace ++ [.resent]) = delays progress.trace := by simp [delays]
    rw [same]
    exact within.capped
  · rw [more]
    exact counted
  · rw [more]
    push_cast
    omega

/-- What an event leaves: the variables within their bounds, the session kempt and its
streams on their paths. -/
structure Leaves (limit : Int) (before : Session Body) (outcome : Outcome Body) : Prop where
  within : Within limit before.machine.config.waitCap outcome.2.1
  kempt : outcome.2.2.Kempt
  config : outcome.2.2.machine.config = before.machine.config
  placed : Session.Placed before outcome.2.2

theorem Leaves.only {limit : Int} {exit : Option Exit} {machine : Machine Body}
    (kempt : session.Kempt) (within : Within limit session.machine.config.waitCap progress)
    (only : OutOnly session.machine machine) :
    Leaves limit session (exit, progress, { session with machine }) :=
  ⟨within, kempt.only only, only.config, Session.Placed.same fun sid => by rw [only.pending]⟩

theorem Leaves.here {limit : Int} {exit : Option Exit} (kempt : session.Kempt)
    (within : Within limit session.machine.config.waitCap progress) :
    Leaves limit session (exit, progress, session) :=
  Leaves.only kempt within (OutOnly.refl session.machine)

theorem Leaves.released {limit : Int} {exit : Option Exit} (kempt : session.Kempt)
    (within : Within limit session.machine.config.waitCap progress) :
    Leaves limit session
      (exit, progress, { session with machine := Machine.release sid session.machine }) := by
  refine ⟨within, ⟨?_, ?_, ?_, ?_⟩, ?_, ?_⟩
  · rw [Machine.release_frame]
    exact kempt.running
  · rw [Machine.release_frame]
    exact kempt.whole
  · rw [Machine.release_frame]
    exact kempt.capped
  · rw [Machine.release_frame]
    exact kempt.inbox
  · rw [Machine.release_frame]
  · intro other pending found
    dsimp only at found
    rw [Machine.release_pending, Dict.get_erase] at found
    split_ifs at found
    exact ⟨pending, found, rfl⟩

theorem resend_leaves {seconds : ℚ} (kempt : session.Kempt)
    (within : Within session.machine.config.redirectLimit session.machine.config.waitCap progress)
    (below : seconds ≤ session.machine.config.waitCap)
    (limit : ¬session.machine.config.redirectLimit < (progress.waits + 1 : Nat)) :
    Leaves session.machine.config.redirectLimit session
      (resend caller sid seconds { progress with waits := progress.waits + 1 } session) := by
  have slept := within.slept below
  unfold resend
  dsimp only
  split_ifs with negative
  · exact Leaves.here kempt slept
  · obtain ⟨resumed, first, left⟩ := Session.resume_final sid session
    cases done : Session.onMachine (Machine.resume sid) session with
    | error error after =>
        rw [done] at left
        obtain rfl : after = { session with machine := resumed } := left
        exact Leaves.only kempt slept first
    | ok value after =>
        rw [done] at left
        obtain rfl : after = { session with machine := resumed } := left
        obtain ⟨flushed, second, later⟩ := Session.flush_final
          (caller.resends (progress.waits + 1)) { session with machine := resumed }
        have counted : resends (progress.trace ++ [.slept seconds]) + 1 ≤ progress.waits + 1 := by
          have same : resends (progress.trace ++ [.slept seconds]) = resends progress.trace := by
            simp [resends]
          rw [same]
          exact Nat.succ_le_succ within.counted
        have again := slept.resent counted (not_lt.mp limit)
        dsimp only
        cases sent : Session.flush (caller.resends (progress.waits + 1))
            { session with machine := resumed } with
        | error error after =>
            rw [sent] at later
            obtain rfl : after = { session with machine := flushed } := later
            exact Leaves.only kempt again (first.trans second)
        | ok value after =>
            rw [sent] at later
            obtain rfl : after = { session with machine := flushed } := later
            have gone := again
            exact Leaves.only kempt ⟨again.capped, again.counted, again.limited⟩
              (first.trans second)

theorem heed_leaves {event : Event} (kempt : session.Kempt)
    (within : Within session.machine.config.redirectLimit session.machine.config.waitCap progress)
    (capped : event.Capped session.machine.config.waitCap) :
    Leaves session.machine.config.redirectLimit session
      (heed caller sid event progress session) := by
  cases event with
  | completed streamid request data status =>
      have passed := @Within.passed caller progress _ _ within (data.drop progress.streamed)
      unfold heed
      dsimp only
      split_ifs
      · cases told : pass caller (data.drop progress.streamed) progress with
        | mk raises left =>
            rw [told] at passed
            cases raises with
            | some error => exact Leaves.here kempt passed
            | none => exact Leaves.here kempt passed
      · exact Leaves.here kempt within
  | chunk streamid request data =>
      have passed := @Within.passed caller progress _ _ within data
      unfold heed
      dsimp only
      cases told : pass caller data progress with
      | mk raises left =>
          rw [told] at passed
          cases raises with
          | some error => exact Leaves.here kempt passed
          | none => exact Leaves.here kempt ⟨passed.capped, passed.counted, passed.limited⟩
  | redirected streamid request target => exact Leaves.released kempt within
  | waiting streamid request seconds message again =>
      cases again with
      | false => exact Leaves.here kempt within
      | true =>
          unfold heed
          dsimp only
          split_ifs with spent
          · exact Leaves.here kempt
              ⟨within.capped, Nat.le_succ_of_le within.counted, within.limited⟩
          · exact resend_leaves kempt within capped spent
  | failed | negotiated | needTls | ready | attention | pathLost | disconnected =>
      exact Leaves.here kempt within

theorem Leaves.trans {limit : Int} {exit : Option Exit} {middle : Session Body}
    {outcome : Outcome Body} (one : Leaves limit session (exit, progress, middle))
    (two : Leaves limit middle outcome) : Leaves limit session outcome := by
  have config : middle.machine.config = session.machine.config := one.config
  refine ⟨?_, two.kempt, two.config.trans config, one.placed.trans two.placed⟩
  rw [← config]
  exact two.within

theorem handle_leaves {events : List Event} (kempt : session.Kempt)
    (within : Within session.machine.config.redirectLimit session.machine.config.waitCap progress)
    (capped : ∀ event ∈ events, event.Capped session.machine.config.waitCap) :
    Leaves session.machine.config.redirectLimit session
      (handle caller sid events progress session) := by
  induction events generalizing progress session with
  | nil => exact Leaves.here kempt within
  | cons event rest induction =>
      have first := @heed_leaves Body caller sid session progress event kempt within
        (capped event List.mem_cons_self)
      unfold handle
      cases outcome : heed caller sid event progress session with
      | mk exit left =>
          obtain ⟨after, middle⟩ := left
          rw [outcome] at first
          cases exit with
          | some exit => exact first
          | none =>
              have config : middle.machine.config = session.machine.config := first.config
              have later := @induction middle after first.kempt
                (by rw [config]; exact first.within)
                (by rw [config]; exact fun event member =>
                  capped event (List.mem_cons_of_mem _ member))
              rw [config] at later
              exact first.trans later

section Await

variable [Exchange Body] (installation : Installation Body)

omit [Exchange Body] in
/-- What comes next, once the events that are there are dealt with: the first of it is what
was queued before the submission. -/
theorem Stands.heard {stale : Nat} {told : List Event} {after : Session Body}
    (flying : session.machine.inFlight sid)
    (queue : stale = (Session.ofStream sid session.machine.events).length)
    (heard : Session.Heard session after told) :
    Stands sid stale (Session.ofStream sid (session.machine.events ++ told)) after := by
  have parts : Session.ofStream sid (session.machine.events ++ told) =
      Session.ofStream sid session.machine.events ++ Session.ofStream sid told :=
    List.filter_append _ _
  rw [Stands, heard.ends, queue, parts, List.drop_left]
  constructor
  · rintro ⟨-, none⟩ event member
    exact none event (List.mem_filter.mp member).1
  · intro none
    refine ⟨flying, fun event member => ?_⟩
    by_cases names : event.stream = some sid
    · exact none event (List.mem_filter.mpr ⟨member, decide_eq_true names⟩)
    · simp [Event.ends, names]

theorem await_unharmed {pathid stale : Nat} {events : List Event} (arrivals : List Arrival)
    (kempt : session.Kempt) (stands : Stands sid stale events session)
    (queue : stale - events.length = (Session.ofStream sid session.machine.events).length) :
    Unharmed onPath sid (await caller sid installation pathid arrivals events progress session) ↔
      Forward progress.trace ∧
        ∀ step ∈ met caller sid installation pathid arrivals stale events progress session,
          Orderly caller session.machine.config.redirectLimit onPath sid step := by
  induction arrivals generalizing stale events progress session with
  | nil =>
      unfold await met
      rcases @handle_unharmed Body caller onPath sid session progress stale events stands with
        ⟨exit, after, left, ran, unharmed⟩ | ⟨after, machine, ran, only, flying, forward⟩
      · rw [ran, unharmed]
      · rw [ran, Unharmed, ← forward, and_true]
  | cons arrival rest induction =>
      unfold await met
      rcases @handle_unharmed Body caller onPath sid session progress stale events stands with
        ⟨exit, after, left, ran, unharmed⟩ | ⟨after, machine, ran, only, flying, forward⟩
      · rw [ran]
        dsimp only
        rw [unharmed, List.append_nil]
      · rw [ran]
        dsimp only
        have left := kempt.only only
        rcases Session.listen_heard installation left sid pathid arrival with
          ⟨told, next, listened, heard, empty, -, -⟩ | ⟨error, next, listened, -, -⟩
        · rw [listened]
          dsimp only
          rw [← only.events] at queue
          have limit : next.machine.config.redirectLimit =
              session.machine.config.redirectLimit := by
            rw [heard.config, only.config]
          have later := @induction next after (stale - events.length) _ heard.kempt
            (Stands.heard flying queue heard)
            (by rw [empty, queue]; simp [Session.ofStream])
          rw [later, forward, limit, List.forall_mem_append, and_assoc]
        · rw [listened]
          dsimp only
          rw [Unharmed, List.append_nil, ← forward, and_true]

theorem await_leaves {pathid : Nat} {events : List Event} (arrivals : List Arrival)
    (kempt : session.Kempt)
    (within : Within session.machine.config.redirectLimit session.machine.config.waitCap progress)
    (capped : ∀ event ∈ events, event.Capped session.machine.config.waitCap) :
    Leaves session.machine.config.redirectLimit session
      (await caller sid installation pathid arrivals events progress session) := by
  induction arrivals generalizing events progress session with
  | nil =>
      unfold await
      exact handle_leaves kempt within capped
  | cons arrival rest induction =>
      have first := @handle_leaves Body caller sid session progress events kempt within capped
      unfold await
      cases outcome : handle caller sid events progress session with
      | mk exit left =>
          obtain ⟨after, middle⟩ := left
          rw [outcome] at first
          cases exit with
          | some exit => exact first
          | none =>
              have config : middle.machine.config = session.machine.config := first.config
              have held : Within middle.machine.config.redirectLimit
                  middle.machine.config.waitCap after := by
                rw [config]
                exact first.within
              dsimp only
              rcases Session.listen_heard installation first.kempt sid pathid arrival with
                ⟨told, next, listened, heard, -, mine, -⟩ |
                ⟨error, next, listened, tidy, same, placed⟩
              · rw [listened]
                dsimp only
                have later := @induction next after _ heard.kempt
                  (by rw [heard.config]; exact held) (by rw [heard.config]; exact mine)
                have between : Leaves session.machine.config.redirectLimit middle
                    (none, after, next) :=
                  ⟨by rw [config]; exact first.within, heard.kempt, heard.config, heard.placed⟩
                rw [heard.config, config] at later
                exact first.trans (between.trans later)
              · rw [listened]
                exact ⟨first.within, tidy, same.trans config, first.placed.trans placed⟩

end Await

namespace Session

theorem Kempt.machine {session : Session Body} (kempt : session.Kempt) {machine : Machine Body}
    (state : machine.state.bringingUp = false) (events : machine.events = session.machine.events)
    (config : machine.config = session.machine.config) : Kempt { session with machine } where
  running := state
  whole := by rw [events]; exact kempt.whole
  capped := by rw [events, config]; exact kempt.capped
  inbox := by rw [config]; exact kempt.inbox

/-- A request that was submitted: its stream is in flight on its path, and nothing else has
changed that a session looks at. -/
theorem submitted {request : Request} {path : Text} {arriveOnPath : Bool}
    {session : Session Body} (kempt : session.Kempt) :
    Kempt (final (onMachine (Machine.submit request path arriveOnPath) session)) ∧
      (final (onMachine (Machine.submit request path arriveOnPath) session)).machine.config =
        session.machine.config ∧
      ∀ sid left, onMachine (Machine.submit request path arriveOnPath) session = .ok sid left →
        ∃ pending, left.machine.pending.get? sid = some pending ∧
          pending.pathid = request.pathid := by
  have move := Machine.submit_move request path arriveOnPath session.machine
  dsimp only at move
  have issued : ∀ sid left, onMachine (Machine.submit request path arriveOnPath) session =
      .ok sid left → Machine.returned (Machine.submit request path arriveOnPath session.machine) =
        some sid ∧ left.machine =
          final (Machine.submit request path arriveOnPath session.machine) := by
    intro sid left done
    obtain ⟨given, same⟩ := on_machine_returned done
    rw [same]
    exact ⟨given, rfl⟩
  rw [on_machine_final]
  generalize final (Machine.submit request path arriveOnPath session.machine) = after at *
  generalize Machine.returned (Machine.submit request path arriveOnPath session.machine) =
    given at *
  cases move with
  | refused => exact ⟨kempt, rfl, fun sid left done => by cases (issued sid left done).1⟩
  | exhausted =>
      exact ⟨kempt.machine kempt.running rfl rfl, rfl,
        fun sid left done => by cases (issued sid left done).1⟩
  | raised =>
      exact ⟨kempt.machine kempt.running rfl rfl, rfl,
        fun sid left done => by cases (issued sid left done).1⟩
  | @issued sid free next frame signer =>
      have table := Machine.enqueue_table request sid path arriveOnPath frame
        { session.machine with free := free, nextSid := next, signer := signer }
      have same : (Machine.enqueue request sid path arriveOnPath frame
          { session.machine with free := free, nextSid := next, signer := signer }).config =
            session.machine.config ∧ (Machine.enqueue request sid path arriveOnPath frame
          { session.machine with free := free, nextSid := next, signer := signer }).state =
            session.machine.state := by
        unfold Machine.enqueue
        dsimp only
        split_ifs <;> exact ⟨rfl, rfl⟩
      refine ⟨kempt.machine ?_ table.1 same.1, same.1, ?_⟩
      · rw [same.2]
        exact kempt.running
      · intro other left done
        obtain ⟨same, machine⟩ := issued other left done
        cases same
        rw [machine, table.2]
        exact ⟨_, Dict.get_set_self _ _ _, rfl⟩

theorem Kempt.closedPath {session : Session Body} (kempt : session.Kempt) (pathid : Nat) :
    Kempt (closePath pathid session) := by
  have frame := Machine.forget_path_frame pathid session.machine
  have kept : Kempt { session with machine := Machine.forgetPath pathid session.machine } := by
    rw [frame]
    exact kempt.machine kempt.running rfl rfl
  exact ⟨kept.running, kept.whole, kept.capped, kept.inbox⟩

theorem Kempt.settled {session : Session Body} (kempt : session.Kempt) (pathid : Nat)
    (exit : Option Exit) : Kempt (settlePath pathid exit session) := by
  unfold settlePath
  split
  · exact kempt
  · exact ⟨kempt.running, kempt.whole, kempt.capped, kempt.inbox⟩
  · have declined : Kempt { session with arrivesOnPath := some false } :=
      ⟨kempt.running, kempt.whole, kempt.capped, kempt.inbox⟩
    exact declined.closedPath pathid

theorem Kempt.unparked {session : Session Body} (kempt : session.Kempt) (sid : Nat) :
    Kempt (unpark sid session) := by
  refine ⟨kempt.running, kempt.whole, kempt.capped, fun other event member => ?_⟩
  unfold parked unpark Dict.getD at member
  rw [Dict.get_erase] at member
  split_ifs at member
  · cases member
  · exact kempt.inbox other event member

theorem Kempt.ended {session : Session Body} (kempt : session.Kempt) {machine : Machine Body}
    {reason : Text} (state : machine.state = .CLOSED)
    (events : machine.events = session.machine.events ++ [.disconnected reason])
    (config : machine.config = session.machine.config) : Kempt { session with machine } := by
  constructor
  · rw [state]
    rfl
  · rw [events, List.forall_mem_append]
    exact ⟨kempt.whole, by simp [Event.losesPath]⟩
  · rw [events, config, List.forall_mem_append]
    exact ⟨kempt.capped, by simp [Event.Capped]⟩
  · rw [config]
    exact kempt.inbox

theorem Kempt.closed {session : Session Body} (kempt : session.Kempt) (fault : Option Fault) :
    Kempt (close fault session) := by
  have left : ∀ session : Session Body, session.Kempt →
      Kempt { session with paths := [], machine := { session.machine with state := .CLOSED } } :=
    fun session kempt => ⟨rfl, kempt.whole, kempt.capped, kempt.inbox⟩
  unfold close
  dsimp only
  split_ifs with ready
  · apply left
    have ended : Kempt (final (onMachine (Machine.close true) session)) := by
      rw [on_machine_final]
      have move := Machine.close_move true session.machine
      generalize final (Machine.close true session.machine) = after at move
      cases move with
      | exhausted => exact kempt.machine kempt.running rfl rfl
      | raised => exact kempt.machine kempt.running rfl rfl
      | farewell => exact kempt.ended rfl rfl rfl
      | silent => exact kempt.ended rfl rfl rfl
    rw [run_bind]
    cases done : onMachine (Machine.close true) session with
    | error error after =>
        rw [done] at ended
        exact ended
    | ok value after =>
        rw [done] at ended
        obtain ⟨machine, only, flushed⟩ := flush_final fault after
        dsimp only
        rw [flushed]
        exact Kempt.only ended only
  · exact left session kempt

/-- The stream id a call is given, and the session it then waits on. -/
def issues (request : Request) (path : Text) (arriveOnPath : Bool) (session : Session Body) :
    Option (Nat × Session Body) :=
  if session.closed || request.pathid ≠ 0 && request.pathid ∉ session.paths then none
  else
    match onMachine (Machine.submit request path (session.onPath request arriveOnPath)) session with
    | .ok sid session => some (sid, session)
    | .error _ _ => none

/-- How many events were there for a stream before it was submitted. -/
def stale (sid : Nat) (session : Session Body) : Nat :=
  (session.parked sid).length + (ofStream sid session.machine.events).length

variable [Exchange Body] (installation : Installation Body)

theorem execute_cases (caller : Caller) (request : Request) (path : Text) (arriveOnPath : Bool)
    (arrivals : List Arrival) {session : Session Body} (kempt : session.Kempt) :
    (∃ sid left, issues request path arriveOnPath session = some (sid, left) ∧
      execute installation caller request path arriveOnPath arrivals session =
        awaited installation caller request (session.onPath request arriveOnPath) arrivals sid left ∧
      Kempt left ∧ left.machine.config = session.machine.config ∧
      ∃ pending, left.machine.pending.get? sid = some pending ∧
        pending.pathid = request.pathid) ∨
    ∃ error left, issues request path arriveOnPath session = none ∧
      execute installation caller request path arriveOnPath arrivals session =
        (some (.raised error), {}, left) ∧ Kempt left := by
  obtain ⟨tidy, config, flies⟩ := @submitted Body request path
    (session.onPath request arriveOnPath) session kempt
  unfold execute issues
  by_cases ended : session.closed = true
  · exact Or.inr ⟨_, session, by simp [ended], by rw [if_pos ended], kempt⟩
  rw [if_neg ended]
  by_cases unbound : request.pathid ≠ 0 ∧ request.pathid ∉ session.paths
  · exact Or.inr ⟨_, session, by simp [unbound], by rw [if_pos unbound], kempt⟩
  rw [if_neg unbound, if_neg (by simpa [ended] using unbound)]
  dsimp only
  cases done : onMachine (Machine.submit request path (session.onPath request arriveOnPath))
      session with
  | error error left =>
      rw [done] at tidy
      exact Or.inr ⟨error, left, rfl, rfl, tidy⟩
  | ok sid left =>
      rw [done] at tidy config
      exact Or.inl ⟨sid, left, rfl, rfl, tidy, config, flies sid left done⟩

theorem awaited_leaves {request : Request} {arrivals : List Arrival} {left : Session Body}
    (kempt : left.Kempt) :
    Leaves left.machine.config.redirectLimit left
      (await caller sid installation (answersOn request onPath) arrivals (left.parked sid) {}
        (left.unpark sid)) := by
  have unparked := kempt.unparked sid
  have none : Within left.machine.config.redirectLimit left.machine.config.waitCap {} :=
    ⟨by simp [delays], Nat.le_refl _, le_max_right _ _⟩
  have leaves := @await_leaves Body caller sid (left.unpark sid) {} _ installation
    (answersOn request onPath) (left.parked sid) arrivals unparked none (kempt.inbox sid)
  exact ⟨leaves.within, leaves.kempt, leaves.config, leaves.placed⟩

theorem Kempt.executed {session : Session Body} (kempt : session.Kempt) (caller : Caller)
    (request : Request) (path : Text) (arriveOnPath : Bool) (arrivals : List Arrival) :
    Kempt (execute installation caller request path arriveOnPath arrivals session).2.2 := by
  rcases execute_cases installation caller request path arriveOnPath arrivals kempt with
    ⟨sid, left, -, ran, tidy, -⟩ | ⟨error, left, -, ran, tidy⟩
  · rw [ran, awaited]
    have leaves := @awaited_leaves Body caller (session.onPath request arriveOnPath) sid _
      installation request arrivals left tidy
    dsimp only
    split_ifs
    · exact leaves.kempt.settled _ _
    · exact leaves.kempt
  · rw [ran]
    exact tidy

theorem Reached.kempt {session : Session Body} (reached : Reached installation session) :
    session.Kempt := by
  induction reached with
  | connected host port config credentials username wantTls calls brought ready read =>
      constructor
      · rw [ready]
        rfl
      · rw [read]
        simp
      · rw [read]
        simp
      · exact fun sid event member => by cases member
  | executed caller request path arriveOnPath arrivals reached induction =>
      exact induction.executed installation caller request path arriveOnPath arrivals
  | bound pathid fresh reached induction =>
      exact ⟨induction.running, induction.whole, induction.capped, induction.inbox⟩
  | noticed reached induction =>
      exact ⟨induction.running, induction.whole, induction.capped, induction.inbox⟩
  | closed fault reached induction => exact induction.closed fault

/-- Every delay is between zero and the cap, the request is sent again within the limit, and
a call that leaves with an answer or an error of its own leaves no stream in flight. -/
structure Bounded (caller : Caller) (request : Request) (path : Text) (arriveOnPath : Bool)
    (arrivals : List Arrival) (session : Session Body) : Prop where
  delays : ∀ seconds ∈ delays
    (execute installation caller request path arriveOnPath arrivals session).2.1.trace,
      0 ≤ seconds ∧ seconds ≤ session.machine.config.waitCap
  resends : (resends
    (execute installation caller request path arriveOnPath arrivals session).2.1.trace : Int) ≤
      session.machine.config.redirectLimit
  released : ∀ sid left, issues request path arriveOnPath session = some (sid, left) →
    (execute installation caller request path arriveOnPath arrivals session).1.any Exit.leaves =
      true →
    ¬(execute installation caller request path arriveOnPath arrivals
      session).2.2.machine.inFlight sid

def comesTo (caller : Caller) (request : Request) (onPath : Bool) (arrivals : List Arrival)
    (sid : Nat) (left : Session Body) : List Met :=
  met caller sid installation (answersOn request onPath) arrivals (left.stale sid)
    (left.parked sid) {} (left.unpark sid)

theorem awaited_unharmed {request : Request} {arrivals : List Arrival} {left : Session Body}
    (kempt : left.Kempt) (flying : left.machine.inFlight sid) :
    Unharmed onPath sid (await caller sid installation (answersOn request onPath) arrivals
        (left.parked sid) {} (left.unpark sid)) ↔
      ∀ step ∈ comesTo installation caller request onPath arrivals sid left,
        Orderly caller left.machine.config.redirectLimit onPath sid step := by
  have stands : Stands sid (left.stale sid) (left.parked sid) (left.unpark sid) := by
    have none : (left.parked sid).drop (left.stale sid) = [] :=
      List.drop_eq_nil_of_le (Nat.le_add_right _ _)
    rw [Stands, none]
    exact ⟨fun _ => by simp, fun _ => flying⟩
  have queue : left.stale sid - (left.parked sid).length =
      (ofStream sid (left.unpark sid).machine.events).length := Nat.add_sub_cancel_left _ _
  have awaited := @await_unharmed Body caller onPath sid (left.unpark sid) {} _ installation
    (answersOn request onPath) _ _ arrivals (kempt.unparked sid) stands queue
  rw [awaited]
  have forward : Forward ({} : Progress).trace := by simp [Forward, Sync.delays]
  exact ⟨fun both => both.2, fun orderly => ⟨forward, orderly⟩⟩

omit [Exchange Body] in
theorem close_path_released {pathid : Nat} {session : Session Body}
    (here : ∀ pending, session.machine.pending.get? sid = some pending → pending.pathid = pathid) :
    ¬(closePath pathid session).machine.inFlight sid := by
  intro held
  obtain ⟨apart, flying⟩ := (Machine.in_flight_forget_path pathid sid session.machine).mp held
  obtain ⟨pending, found⟩ := (Dict.mem_keys _ _).mp flying
  exact apart ((Machine.mem_streams_on pathid sid session.machine).mpr
    ⟨pending, found, here pending found⟩)

omit [Exchange Body] in
theorem settled_released {pathid : Nat} {exit : Option Exit} {session : Session Body}
    {after : Progress}
    (here : ∀ pending, session.machine.pending.get? sid = some pending → pending.pathid = pathid)
    (forward : Forward after.trace) :
    (exit.any Exit.leaves = true →
      ¬(if onPath then settlePath pathid exit session else session).machine.inFlight sid) ↔
      Unharmed onPath sid (exit, after, session) := by
  have gone := @close_path_released Body sid pathid { session with arrivesOnPath := some false } here
  cases exit with
  | none => simp [Unharmed, forward]
  | some exit =>
      cases exit with
      | returned result => cases onPath <;> simp [Unharmed, forward, Exit.leaves, settlePath]
      | failed error => cases onPath <;> simp [Unharmed, forward, Exit.leaves, settlePath, gone]
      | redirectRequired target =>
          cases onPath <;> simp [Unharmed, forward, Exit.leaves, settlePath, gone]
      | waitLimitError message attempts =>
          cases onPath <;> simp [Unharmed, forward, Exit.leaves, settlePath, gone]
      | raised error => simp [Unharmed, forward, Exit.leaves]

/-- A call is bounded exactly when the limit is not negative, every wait it sleeps on is for
a time that is not negative, and the end of its stream was reported by the time it leaves
with an answer or with the error that it was asked to wait too often. -/
theorem call_bounded_iff {session : Session Body} (reached : Reached installation session)
    (caller : Caller) (request : Request) (path : Text) (arriveOnPath : Bool)
    (arrivals : List Arrival) :
    Bounded installation caller request path arriveOnPath arrivals session ↔
      0 ≤ session.machine.config.redirectLimit ∧
        ∀ sid left, issues request path arriveOnPath session = some (sid, left) →
          ∀ step ∈ comesTo installation caller request (session.onPath request arriveOnPath)
              arrivals sid left,
            Orderly caller session.machine.config.redirectLimit
              (session.onPath request arriveOnPath) sid step := by
  rcases execute_cases installation caller request path arriveOnPath arrivals reached.kempt with
    ⟨sid, left, issued, ran, tidy, config, pending, found, placed⟩ | ⟨error, left, refused, ran, -⟩
  · have leaves := @awaited_leaves Body caller (session.onPath request arriveOnPath) sid _
      installation request arrivals left tidy
    have orderly := @awaited_unharmed Body caller (session.onPath request arriveOnPath) sid _
      installation request arrivals left tidy (Dict.mem_keys_of_get found)
    have same : ∀ other after, issues request path arriveOnPath session = some (other, after) →
        other = sid ∧ after = left := by
      intro other after given
      rw [issued] at given
      cases given
      exact ⟨rfl, rfl⟩
    rw [config] at orderly leaves
    generalize outcome : await caller sid installation
      (answersOn request (session.onPath request arriveOnPath)) arrivals (left.parked sid) {}
      (left.unpark sid) = result at orderly leaves
    obtain ⟨exit, after, last⟩ := result
    have here : ∀ pending, last.machine.pending.get? sid = some pending →
        pending.pathid = request.pathid := by
      intro held there
      obtain ⟨old, known, where_⟩ := leaves.placed sid held there
      rw [found] at known
      cases known
      exact where_.symm.trans placed
    have whole : execute installation caller request path arriveOnPath arrivals session =
        (exit, after, if session.onPath request arriveOnPath then
          settlePath request.pathid exit last else last) := by
      rw [ran, awaited, outcome]
    constructor
    · intro bounded
      have limit : 0 ≤ session.machine.config.redirectLimit :=
        le_trans (Int.natCast_nonneg _) bounded.resends
      have forward : Forward after.trace := by
        intro seconds member
        have between := bounded.delays seconds
        rw [whole] at between
        exact (between member).1
      have released := bounded.released sid left issued
      rw [whole] at released
      have unharmed := (settled_released here forward).mp released
      refine ⟨limit, fun other next given => ?_⟩
      obtain ⟨rfl, rfl⟩ := same other next given
      exact orderly.mp unharmed
    · rintro ⟨limit, each⟩
      have unharmed := orderly.mpr (each sid left issued)
      constructor
      · rw [whole]
        intro seconds member
        refine ⟨unharmed.1 seconds member, ?_⟩
        have capped := leaves.within.capped seconds member
        rw [config] at capped
        exact capped
      · rw [whole]
        have limited := leaves.within.limited
        rw [max_eq_left limit] at limited
        exact limited
      · intro other next given
        obtain ⟨rfl, rfl⟩ := same other next given
        rw [whole]
        exact (settled_released here unharmed.1).mpr unharmed
  · constructor
    · intro bounded
      have limit := bounded.resends
      rw [ran] at limit
      exact ⟨limit, fun sid left issued => by rw [refused] at issued; cases issued⟩
    · rintro ⟨limit, -⟩
      constructor
      · rw [ran]
        simp [Sync.delays]
      · rw [ran]
        exact limit
      · intro sid left issued
        rw [refused] at issued
        cases issued

/-- A session that was brought up without authentication and is idle. -/
def idle (config : Config) : Session OneShot where
  machine := Machine.after (Installation.bare OneShot)
    [.start, .receiveData (Machine.greets 1 [] ++ Machine.admits []) 0, .dataToSend,
      .nextEvent, .nextEvent]
    (Machine.new (str "data") DEFAULT_PORT config none [] false [])

theorem idle_reached (config : Config) (ready : (idle config).machine.state = .READY)
    (read : (idle config).machine.events = []) :
    Reached (Installation.bare OneShot) (idle config) :=
  Reached.connected (str "data") DEFAULT_PORT config none [] false _ rfl ready read

def waits (seconds : Int) : Arrival where
  received := .ok (response 4 kXR_wait (BigEndian.encode 4 (BigEndian.unsigned 4 seconds)))

theorem ping_bounded :
    Reached (Installation.bare OneShot) (idle {}) ∧
      Bounded (Installation.bare OneShot) {} Request.Ping [] false
        [waits 3, { received := .ok (response 4 kXR_ok []) }] (idle {}) := by
  have reached := idle_reached {} (by decide +kernel) (by decide +kernel)
  refine ⟨reached, (call_bounded_iff _ reached _ _ _ _ _).mpr ⟨by decide +kernel, ?_⟩⟩
  have orderly : ((issues Request.Ping [] false (idle {})).all fun issued : Nat × Session OneShot =>
      decide (∀ step ∈ comesTo (Installation.bare OneShot) {} Request.Ping
          ((idle {}).onPath Request.Ping false)
          [waits 3, { received := .ok (response 4 kXR_ok []) }] issued.1 issued.2,
        Orderly {} (idle {}).machine.config.redirectLimit ((idle {}).onPath Request.Ping false)
          issued.1 step)) = true := by
    decide +kernel
  intro sid left issued
  rw [issued] at orderly
  exact of_decide_eq_true orderly

/-- A server asks to wait for less than no time, and one asks to wait too often. -/
theorem unbounded_waits :
    (¬∀ session : Session OneShot, Reached (Installation.bare OneShot) session →
      ∀ caller request path arriveOnPath arrivals, Bounded (Installation.bare OneShot) caller
        request path arriveOnPath arrivals session) ∧
    ∃ session : Session OneShot, Reached (Installation.bare OneShot) session ∧
      (execute (Installation.bare OneShot) {} Request.Ping [] false [waits 3, waits 3]
        session).1.any Exit.leaves = true ∧
      (execute (Installation.bare OneShot) {} Request.Ping [] false [waits 3, waits 3]
        session).2.2.machine.inFlight 4 := by
  constructor
  · intro every
    have reached := idle_reached {} (by decide +kernel) (by decide +kernel)
    have bounded := every (idle {}) reached {} Request.Ping [] false [waits (-1)]
    have negative : -1 ∈ Sync.delays (execute (Installation.bare OneShot) {} Request.Ping [] false
        [waits (-1)] (idle {})).2.1.trace := by
      decide +kernel
    exact absurd (bounded.delays (-1) negative).1 (by decide)
  · refine ⟨idle { redirectLimit := 1 },
      idle_reached _ (by decide +kernel) (by decide +kernel), ?_, ?_⟩
    · decide +kernel
    · unfold Machine.inFlight
      decide +kernel

end Session

end XRootDClient.Sync
