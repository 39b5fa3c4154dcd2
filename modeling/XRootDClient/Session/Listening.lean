import XRootDClient.Proto.Reception
import XRootDClient.Session.Sync

/-!
# What a session hears

The pump sends what is queued, which leaves the streams alone, and feeds the machine what
was received. Of the events that come out, those of the stream that is waited for are
handed on in order; the others are parked, noted or raised. A path that is lost is closed
after the machine has ended its streams.
-/

set_option autoImplicit false

namespace XRootDClient.Sync

open Lib Lib.BigEndian Lib.Stateful Auth Proto Machine

variable {Body : Type}

/-- Only what is queued for the links differs. -/
structure OutOnly (before after : Machine Body) : Prop where
  same : after = { before with out := after.out, outPath := after.outPath }

namespace OutOnly

variable {before after : Machine Body}

theorem refl (machine : Machine Body) : OutOnly machine machine := ⟨rfl⟩

theorem trans {first second third : Machine Body} (one : OutOnly first second)
    (two : OutOnly second third) : OutOnly first third := by
  constructor
  rw [two.same, one.same]

theorem pending (only : OutOnly before after) : after.pending = before.pending := by
  rw [only.same]

theorem events (only : OutOnly before after) : after.events = before.events := by
  rw [only.same]

theorem config (only : OutOnly before after) : after.config = before.config := by
  rw [only.same]

theorem state (only : OutOnly before after) : after.state = before.state := by
  rw [only.same]

theorem framers (only : OutOnly before after) : after.framers = before.framers := by
  rw [only.same]

theorem inFlight (only : OutOnly before after) (sid : Nat) :
    after.inFlight sid ↔ before.inFlight sid := by
  rw [Machine.inFlight, only.pending]
  rfl

end OutOnly

namespace Session

theorem on_machine_final {Value : Type} (act : Proto.Act Body Value) (session : Session Body) :
    final (onMachine act session) = { session with machine := final (act session.machine) } := by
  unfold onMachine
  cases act session.machine <;> rfl

theorem on_machine_returned {Value : Type} {act : Proto.Act Body Value} {value : Value}
    {session left : Session Body} (done : onMachine act session = .ok value left) :
    returned (act session.machine) = some value ∧
      left = { session with machine := final (act session.machine) } := by
  unfold onMachine at done
  cases ran : act session.machine with
  | error error machine =>
      rw [ran] at done
      cases done
  | ok value machine =>
      rw [ran] at done
      cases done
      exact ⟨rfl, rfl⟩

theorem flush_paths_only (paths : List Nat) (fault : Option Fault) (machine : Machine Body) :
    OutOnly machine (final (flushPaths paths fault machine)) := by
  induction paths generalizing fault machine with
  | nil => exact OutOnly.refl machine
  | cons pathid rest induction =>
      have drained : OutOnly machine (pathDataToSend pathid machine).2 := ⟨rfl⟩
      unfold flushPaths
      rw [run_bind]
      change OutOnly machine (final ((Machine.attempt (transmit (pathDataToSend pathid machine).1
        fault) >>= fun fault => flushPaths rest fault) (pathDataToSend pathid machine).2))
      rw [run_bind]
      cases transmit (pathDataToSend pathid machine).1 fault with
      | error error => exact drained
      | ok left => exact drained.trans (induction left _)

theorem flush_final (fault : Option Fault) (session : Session Body) :
    ∃ machine, OutOnly session.machine machine ∧
      final (flush fault session) = { session with machine } := by
  have drained : OutOnly session.machine (dataToSend session.machine).2 := ⟨rfl⟩
  have whole : final (flush fault session) = { session with
      machine := final ((Machine.attempt (transmit (dataToSend session.machine).1 fault) >>=
        fun fault => flushPaths session.paths fault) (dataToSend session.machine).2) } :=
    on_machine_final _ session
  refine ⟨_, ?_, whole⟩
  rw [run_bind]
  cases transmit (dataToSend session.machine).1 fault with
  | error error => exact drained
  | ok left => exact drained.trans (flush_paths_only _ _ _)

theorem resume_final (sid : Nat) (session : Session Body) :
    ∃ machine, OutOnly session.machine machine ∧
      final (onMachine (resume sid) session) = { session with machine } := by
  refine ⟨_, ?_, on_machine_final _ session⟩
  have move := resume_move sid session.machine
  generalize final (resume sid session.machine) = after at move
  cases move with
  | refused => exact OutOnly.refl _
  | resent pending =>
      split_ifs
      · exact ⟨rfl⟩
      · exact ⟨rfl⟩

def ofStream (sid : Nat) (events : List Event) : List Event :=
  events.filter fun event => event.stream = some sid

def Cleared (events : List Event) (session : Session Body) : Prop :=
  ∀ pathid reason, .pathLost pathid reason ∈ events → ∀ sid pending,
    session.machine.pending.get? sid = some pending → pending.pathid ≠ pathid

/-- What setting events aside leaves as it is, and what it parks. -/
structure Aside (before after : Session Body) (events : List Event) : Prop where
  pending : ∀ sid, after.machine.pending.get? sid = before.machine.pending.get? sid
  queue : after.machine.events = before.machine.events
  config : after.machine.config = before.machine.config
  state : after.machine.state = before.machine.state
  inbox : ∀ sid, ∀ event ∈ after.parked sid,
    event ∈ before.parked sid ∨ event ∈ events ∧ event.stream = some sid

theorem Aside.same {before after : Session Body} (machine : after.machine = before.machine)
    (inbox : after.inbox = before.inbox) (events : List Event) : Aside before after events := by
  constructor
  · exact fun sid => by rw [machine]
  · rw [machine]
  · rw [machine]
  · rw [machine]
  · intro sid event member
    rw [parked, inbox] at member
    exact Or.inl member

theorem Aside.trans {first second third : Session Body} {early late : List Event}
    (one : Aside first second early) (two : Aside second third late) :
    Aside first third (early ++ late) where
  pending := fun sid => (two.pending sid).trans (one.pending sid)
  queue := two.queue.trans one.queue
  config := two.config.trans one.config
  state := two.state.trans one.state
  inbox := by
    intro sid event member
    rcases two.inbox sid event member with known | ⟨new, names⟩
    · rcases one.inbox sid event known with old | ⟨new, names⟩
      · exact Or.inl old
      · exact Or.inr ⟨List.mem_append_left _ new, names⟩
    · exact Or.inr ⟨List.mem_append_right _ new, names⟩

theorem Cleared.aside {before after : Session Body} {early late : List Event}
    (cleared : Cleared (early ++ late) before) (aside : Aside before after early) :
    Cleared late after := by
  intro pathid reason member sid pending found
  rw [aside.pending sid] at found
  exact cleared pathid reason (List.mem_append_right _ member) sid pending found

theorem close_path_aside {pathid : Nat} {session : Session Body}
    (cleared : ∀ sid pending, session.machine.pending.get? sid = some pending →
      pending.pathid ≠ pathid) (events : List Event) :
    Aside session (closePath pathid session) events := by
  constructor
  · intro sid
    change (forgetPath pathid session.machine).pending.get? sid = _
    rw [forget_path_pending]
    split_ifs with listed
    · obtain ⟨pending, found, here⟩ := (mem_streams_on pathid sid session.machine).mp listed
      exact absurd here (cleared sid pending found)
    · rfl
  · change (forgetPath pathid session.machine).events = _
    rw [forget_path_frame]
  · change (forgetPath pathid session.machine).config = _
    rw [forget_path_frame]
  · change (forgetPath pathid session.machine).state = _
    rw [forget_path_frame]
  · exact fun sid event member => Or.inl member

theorem park_aside {target : Nat} {event : Event} (names : event.stream = some target)
    (session : Session Body) : Aside session (park target event session) [event] := by
  constructor
  · exact fun sid => rfl
  · rfl
  · rfl
  · rfl
  · intro sid other member
    unfold parked park Dict.getD at *
    rw [Dict.get_set] at member
    split_ifs at member with here
    · rw [here]
      rcases List.mem_append.mp member with old | new
      · exact Or.inl old
      · rw [List.mem_singleton.mp new]
        exact Or.inr ⟨List.mem_singleton_self event, names⟩
    · exact Or.inl member

theorem set_aside_aside {event : Event} {session : Session Body}
    (cleared : Cleared [event] session) :
    Aside session (final (setAside event session)) [event] := by
  have same : Aside session session [event] := Aside.same rfl rfl _
  cases event with
  | attention info =>
      apply Aside.same
      · rfl
      · rfl
  | pathLost pathid reason =>
      exact close_path_aside (cleared pathid reason (List.mem_singleton_self _)) _
  | disconnected reason => exact same
  | failed streamid request error =>
      cases streamid with
      | none => exact same
      | some sid => exact park_aside rfl session
  | completed | chunk | redirected | waiting => exact park_aside rfl session
  | negotiated | needTls | ready => exact same

theorem sort_aside (sid : Nat) (events : List Event) {session : Session Body}
    (cleared : Cleared events session) :
    Aside session (final (sort sid events session)) events := by
  induction events generalizing session with
  | nil => exact Aside.same rfl rfl _
  | cons event rest induction =>
      have first : Cleared ([event] ++ rest) session := cleared
      unfold sort
      split_ifs with mine
      · have later := induction (first.aside (Aside.same rfl rfl [event]))
        rw [run_bind]
        cases sorted : sort sid rest session with
        | ok others left =>
            rw [sorted] at later
            exact (@Aside.same _ session session rfl rfl [event]).trans later
        | error error left =>
            rw [sorted] at later
            exact (@Aside.same _ session session rfl rfl [event]).trans later
      · have alone : Cleared [event] session := fun pathid reason member =>
          cleared pathid reason (List.mem_cons.mpr (Or.inl (List.mem_singleton.mp member)))
        have put := set_aside_aside alone
        rw [run_bind]
        cases done : setAside event session with
        | ok value left =>
            rw [done] at put
            exact put.trans (induction (first.aside put))
        | error error left =>
            rw [done] at put
            exact put.trans (Aside.same rfl rfl _)

theorem sort_mine (sid : Nat) (events : List Event) {session left : Session Body}
    {mine : List Event} (sorted : sort sid events session = .ok mine left) :
    mine = ofStream sid events := by
  induction events generalizing session mine with
  | nil =>
      cases sorted
      rfl
  | cons event rest induction =>
      unfold sort at sorted
      split_ifs at sorted with names
      · obtain ⟨others, middle, first, last⟩ := bind_returns sorted
        cases last
        rw [induction first]
        simp [ofStream, names]
      · obtain ⟨value, middle, -, last⟩ := bind_returns sorted
        rw [induction last]
        simp [ofStream, names]

/-- What a session that is brought up keeps: waits are capped wherever their events are,
and a path that was lost has been closed. -/
structure Kempt (session : Session Body) : Prop where
  running : session.machine.state.bringingUp = false
  whole : ∀ event ∈ session.machine.events, event.losesPath = false
  capped : ∀ event ∈ session.machine.events, event.Capped session.machine.config.waitCap
  inbox : ∀ sid, ∀ event ∈ session.parked sid, event.Capped session.machine.config.waitCap

theorem Kempt.only {session : Session Body} (kempt : Kempt session) {machine : Machine Body}
    (only : OutOnly session.machine machine) : Kempt { session with machine } where
  running := by rw [only.state]; exact kempt.running
  whole := by rw [only.events]; exact kempt.whole
  capped := by rw [only.events, only.config]; exact kempt.capped
  inbox := by rw [only.config]; exact kempt.inbox

variable [Exchange Body] (installation : Installation Body)

omit [Exchange Body] in
/-- No stream is new, and every stream is on the path it was on. -/
def Placed (before after : Session Body) : Prop :=
  ∀ sid pending, after.machine.pending.get? sid = some pending →
    ∃ old, before.machine.pending.get? sid = some old ∧ old.pathid = pending.pathid

omit [Exchange Body] in
theorem Placed.trans {first second third : Session Body} (one : Placed first second)
    (two : Placed second third) : Placed first third := by
  intro sid pending found
  obtain ⟨middle, between, same⟩ := two sid pending found
  obtain ⟨old, start, again⟩ := one sid middle between
  exact ⟨old, start, again.trans same⟩

omit [Exchange Body] in
theorem Placed.same {before after : Session Body}
    (pending : ∀ sid, after.machine.pending.get? sid = before.machine.pending.get? sid) :
    Placed before after := by
  intro sid held found
  rw [pending sid] at found
  exact ⟨held, found, rfl⟩

/-- What is so once the machine has taken what was received. -/
structure Heard (before after : Session Body) (events : List Event) : Prop where
  kempt : Kempt after
  config : after.machine.config = before.machine.config
  ends : ∀ sid, after.machine.inFlight sid ↔
    before.machine.inFlight sid ∧ ∀ event ∈ events, event.ends sid = false
  named : ∀ event ∈ events, ∀ sid, event.stream = some sid → before.machine.inFlight sid
  placed : Placed before after

theorem Kempt.received {session : Session Body} (kempt : Kempt session) (data : Bytes)
    (pathid : Nat) :
    let result := Machine.receiveData installation data pathid session.machine
    ∃ events, Heard session { session with machine := { final result with events := [] } } events ∧
      (final result).events = session.machine.events ++ events ∧
      (raised result ≠ none → Kempt { session with machine := final result }) ∧
      (∀ event ∈ (final result).events, event.Capped session.machine.config.waitCap) ∧
      Cleared (final result).events { session with machine := { final result with events := [] } } := by
  intro result
  obtain ⟨events, received, whole⟩ := receive_received installation data pathid kempt.running
  have capped := received.capped kempt.capped
  have config := received.caps.1
  have inbox : ∀ sid, ∀ event ∈ session.parked sid,
      event.Capped (final result).config.waitCap := by
    rw [config]
    exact kempt.inbox
  refine ⟨events, ⟨⟨received.running, by simp, by simp, inbox⟩, config, received.hears.ends,
    received.hears.named, received.hears.placed⟩, received.hears.queued, ?_, ?_, ?_⟩
  · intro failed
    refine ⟨received.running, fun event member => ?_, capped, inbox⟩
    rw [received.hears.queued] at member
    rcases List.mem_append.mp member with old | new
    · exact kempt.whole event old
    · exact whole failed event new
  · rw [← config]
    exact capped
  · intro lost reason member
    rw [received.hears.queued] at member
    rcases List.mem_append.mp member with old | new
    · cases kempt.whole _ old
    · exact received.hears.lost lost reason new

theorem pump_heard {session : Session Body} (kempt : Kempt session) (pathid : Nat)
    (arrival : Arrival) :
    (∃ events after, pump installation pathid arrival session =
        .ok (session.machine.events ++ events) after ∧ Heard session after events ∧
        after.machine.events = [] ∧ after.inbox = session.inbox ∧
        (∀ event ∈ session.machine.events ++ events,
          event.Capped session.machine.config.waitCap) ∧
        Cleared (session.machine.events ++ events) after) ∨
      ∃ error after, pump installation pathid arrival session = .error error after ∧
        Kempt after ∧ after.machine.config = session.machine.config ∧ Placed session after := by
  obtain ⟨machine, only, flushed⟩ := flush_final arrival.fault session
  have sent := kempt.only only
  have placed : Placed session { session with machine } :=
    Placed.same fun sid => by rw [only.pending]
  unfold pump
  rw [run_bind]
  cases outcome : flush arrival.fault session with
  | error error left =>
      rw [outcome] at flushed
      cases flushed
      exact Or.inr ⟨error, _, rfl, sent, only.config, placed⟩
  | ok value left =>
      rw [outcome] at flushed
      cases flushed
      dsimp only
      rw [run_bind, run_get]
      dsimp only
      split_ifs
      · exact Or.inr ⟨_, _, rfl, sent, only.config, placed⟩
      · cases received : arrival.received with
        | error error => exact Or.inr ⟨error, _, rfl, sent, only.config, placed⟩
        | ok data =>
            obtain ⟨events, heard, queued, broken, capped, cleared⟩ :=
              sent.received installation data pathid
            have before : ∀ sid, machine.inFlight sid ↔ session.machine.inFlight sid :=
              only.inFlight
            dsimp only at heard queued broken capped cleared ⊢
            rw [only.events] at queued
            rw [only.config] at capped
            rw [run_bind, onMachine]
            dsimp only
            cases taken : receiveData installation data pathid machine with
            | error error left =>
                rw [taken] at broken heard
                refine Or.inr ⟨error, _, rfl, broken (Option.some_ne_none error), ?_, ?_⟩
                · exact heard.config.trans only.config
                · exact placed.trans heard.placed
            | ok value left =>
                rw [taken] at heard queued capped cleared
                rw [final_ok] at heard queued capped cleared
                refine Or.inl ⟨events, { session with machine := { left with events := [] } }, ?_,
                  ⟨heard.kempt, heard.config.trans only.config, ?_, ?_, ?_⟩, rfl, rfl, ?_, ?_⟩
                · rw [← queued]
                  rfl
                · exact fun sid => (heard.ends sid).trans (and_congr_left' (before sid))
                · exact fun event member sid names => (before sid).mp (heard.named event member sid names)
                · exact placed.trans heard.placed
                · rw [← queued]
                  exact capped
                · rw [← queued]
                  exact cleared

/-- A turn of the loop that waits for a stream's events: they come in order, first what was
queued before, then what the machine has just reported. -/
theorem listen_heard {session : Session Body} (kempt : Kempt session) (sid pathid : Nat)
    (arrival : Arrival) :
    (∃ events after, listen installation sid pathid arrival session =
        .ok (ofStream sid (session.machine.events ++ events)) after ∧ Heard session after events ∧
        after.machine.events = [] ∧
        (∀ event ∈ ofStream sid (session.machine.events ++ events),
          event.Capped session.machine.config.waitCap) ∧
        ∀ other, ∀ event ∈ after.parked other, event ∈ session.parked other ∨
          event ∈ session.machine.events ++ events ∧ event.stream = some other) ∨
      ∃ error after, listen installation sid pathid arrival session = .error error after ∧
        Kempt after ∧ after.machine.config = session.machine.config ∧ Placed session after := by
  unfold listen
  rw [run_bind]
  rcases pump_heard installation kempt pathid arrival with
    ⟨events, middle, pumped, heard, empty, inbox, capped, cleared⟩ |
    ⟨error, middle, pumped, left, config, placed⟩
  · rw [pumped]
    dsimp only
    have aside := sort_aside sid (session.machine.events ++ events) cleared
    have tidy : Kempt (final (sort sid (session.machine.events ++ events) middle)) := by
      constructor
      · rw [aside.state]
        exact heard.kempt.running
      · rw [aside.queue, empty]
        simp
      · rw [aside.queue, empty]
        simp
      · intro other event member
        rw [aside.config]
        rcases aside.inbox other event member with old | ⟨new, -⟩
        · exact heard.kempt.inbox other event old
        · rw [heard.config]
          exact capped event new
    cases sorted : sort sid (session.machine.events ++ events) middle with
    | error error left =>
        rw [sorted] at aside tidy
        exact Or.inr ⟨error, left, rfl, tidy, aside.config.trans heard.config,
          heard.placed.trans (Placed.same aside.pending)⟩
    | ok mine left =>
        rw [sorted] at aside tidy
        rw [sort_mine sid _ sorted]
        rw [final_ok] at aside tidy
        refine Or.inl ⟨events, left, rfl, ⟨tidy, aside.config.trans heard.config, ?_, heard.named,
          ?_⟩, aside.queue.trans empty, fun event member => capped event (List.mem_filter.mp member).1,
          ?_⟩
        · intro other
          rw [← heard.ends, inFlight, inFlight, Dict.mem_keys, Dict.mem_keys, aside.pending]
        · exact heard.placed.trans (Placed.same aside.pending)
        · intro other event member
          have member := aside.inbox other event member
          rw [parked, inbox] at member
          exact member
  · rw [pumped]
    exact Or.inr ⟨error, middle, rfl, left, config, placed⟩

end Session

end XRootDClient.Sync
