import XRootDClient.Proto.Runs
import XRootDClient.Proto.Streams

/-!
# What a feed of bytes comes to

The events a machine queues while it takes what a link has received, against the streams in
flight: a stream goes exactly with the event that ends it, a stream that is named is in
flight, a stream stays on its path, and a path that is lost takes its streams along. The
seconds of a `kXR_wait` are capped.
-/

set_option autoImplicit false

namespace XRootDClient.Proto

open Lib Lib.BigEndian Lib.Stateful Lib.Run Auth

/-- A wait that asks for a resend is no longer than the cap. -/
def Event.Capped (cap : ℚ) : Event → Prop
  | .waiting _ _ seconds _ true => seconds ≤ cap
  | _ => True

def Event.losesPath : Event → Bool
  | .pathLost _ _ => true
  | _ => false

namespace Machine

variable {Body : Type}

/-- What was queued, and what it tells of the streams in flight. -/
structure Hears (before after : Machine Body) (events : List Event) : Prop where
  queued : after.events = before.events ++ events
  ends : ∀ sid, after.inFlight sid ↔
    before.inFlight sid ∧ ∀ event ∈ events, event.ends sid = false
  named : ∀ event ∈ events, ∀ sid, event.stream = some sid → before.inFlight sid
  placed : ∀ sid pending, after.pending.get? sid = some pending →
    ∃ old, before.pending.get? sid = some old ∧ old.pathid = pending.pathid
  lost : ∀ pathid reason, .pathLost pathid reason ∈ events →
    ∀ sid pending, after.pending.get? sid = some pending → pending.pathid ≠ pathid

namespace Hears

variable {first second third before after : Machine Body} {events : List Event}

theorem trans {early late : List Event} (one : Hears first second early)
    (two : Hears second third late) : Hears first third (early ++ late) where
  queued := by rw [two.queued, one.queued, List.append_assoc]
  ends := by
    intro sid
    rw [two.ends, one.ends, List.forall_mem_append, and_assoc]
  named := by
    intro event member sid names
    rcases List.mem_append.mp member with soon | later
    · exact one.named event soon sid names
    · exact ((one.ends sid).mp (two.named event later sid names)).1
  placed := by
    intro sid pending found
    obtain ⟨middle, between, same⟩ := two.placed sid pending found
    obtain ⟨old, start, again⟩ := one.placed sid middle between
    exact ⟨old, start, again.trans same⟩
  lost := by
    intro pathid reason member sid pending found
    rcases List.mem_append.mp member with soon | later
    · obtain ⟨middle, between, same⟩ := two.placed sid pending found
      rw [← same]
      exact one.lost pathid reason soon sid middle between
    · exact two.lost pathid reason later sid pending found

theorem silent (same : after.events = before.events)
    (paths : ∀ sid, (after.pending.get? sid).map Pending.pathid =
      (before.pending.get? sid).map Pending.pathid) : Hears before after [] where
  queued := by rw [same, List.append_nil]
  ends := by
    intro sid
    rw [inFlight, inFlight, Dict.mem_keys, Dict.mem_keys]
    have here := congrArg Option.isSome (paths sid)
    rw [Option.isSome_map, Option.isSome_map] at here
    rw [← Option.isSome_iff_exists, ← Option.isSome_iff_exists, here]
    simp
  named := by simp
  placed := by
    intro sid pending found
    have here := paths sid
    rw [found] at here
    obtain ⟨old, known, same⟩ := Option.map_eq_some_iff.mp here.symm
    exact ⟨old, known, same⟩
  lost := by simp

theorem refl (machine : Machine Body) : Hears machine machine [] := silent rfl fun _ => rfl

theorem nameless {event : Event} (queued : after.events = before.events ++ [event])
    (same : after.pending = before.pending) (none : event.stream = none)
    (kept : ∀ pathid reason, event ≠ .pathLost pathid reason) : Hears before after [event] where
  queued := queued
  ends := by
    intro sid
    rw [inFlight, same]
    simp [inFlight, Event.ends, none]
  named := by simp [none]
  placed := by
    intro sid pending found
    rw [same] at found
    exact ⟨pending, found, rfl⟩
  lost := by
    intro pathid reason member
    exact absurd (List.mem_singleton.mp member).symm (kept pathid reason)

theorem going {sid : Nat} {event : Event} (held : before.inFlight sid)
    (queued : after.events = before.events ++ [event])
    (paths : ∀ other, (after.pending.get? other).map Pending.pathid =
      (before.pending.get? other).map Pending.pathid)
    (names : event.stream = some sid) (more : event.terminal = false) :
    Hears before after [event] := by
  have quiet : Hears { before with events := after.events } after [] := silent rfl paths
  constructor
  · exact queued
  · intro other
    rw [quiet.ends]
    simp [inFlight, Event.ends, more]
  · intro told member other same
    rw [List.mem_singleton.mp member, names] at same
    cases same
    exact held
  · exact quiet.placed
  · intro pathid reason member
    rw [← List.mem_singleton.mp member] at names
    cases names

theorem ended {machine : Machine Body} {sid : Nat} {event : Event} (held : machine.inFlight sid)
    (names : event.stream = some sid) (last : event.terminal = true) :
    Hears machine (emit event (release sid machine)) [event] := by
  constructor
  · rw [release_frame]
    rfl
  · intro other
    have gone := in_flight_release sid other machine
    change (release sid machine).inFlight other ↔ _
    rw [gone, and_comm]
    simp only [List.forall_mem_cons, List.not_mem_nil, false_implies, implies_true, and_true,
      Event.ends, last, names, Bool.true_and, beq_eq_false_iff_ne, ne_eq, Option.some.injEq]
    tauto
  · intro told member other same
    rw [List.mem_singleton.mp member, names] at same
    cases same
    exact held
  · intro other pending found
    have found : (release sid machine).pending.get? other = some pending := found
    rw [release_pending, Dict.get_erase] at found
    split_ifs at found
    exact ⟨pending, found, rfl⟩
  · intro pathid reason member
    rw [← List.mem_singleton.mp member] at names
    cases names

end Hears

theorem update_paths {machine : Machine Body} {sid : Nat} {pending new : Pending}
    (found : machine.pending.get? sid = some pending) (same : new.pathid = pending.pathid)
    (other : Nat) : ((updatePending sid new machine).pending.get? other).map Pending.pathid =
      (machine.pending.get? other).map Pending.pathid := by
  unfold updatePending
  rw [Dict.get_set]
  split_ifs with here
  · rw [here, found, Option.map_some, Option.map_some, same]
  · rfl

theorem on_status_data_hears (sid : Nat) (data : Bytes) (machine : Machine Body) :
    ∃ events, Hears machine (onStatusData sid data machine) events ∧
      ∀ event ∈ events, event.losesPath = false := by
  unfold onStatusData
  cases found : machine.pending.get? sid with
  | none => exact ⟨[], Hears.refl machine, by simp⟩
  | some pending =>
      have held : machine.inFlight sid := Dict.mem_keys_of_get found
      cases status : pending.status with
      | none =>
          dsimp only
          rw [status]
          exact ⟨[], Hears.refl machine, by simp⟩
      | some info =>
          dsimp only
          rw [status]
          dsimp only
          split_ifs
          · exact ⟨[_], Hears.ended held rfl rfl, by simp [Event.losesPath]⟩
          · refine ⟨[_], Hears.going held rfl ?_ rfl rfl, by simp [Event.losesPath]⟩
            exact update_paths found rfl

theorem StreamMove.hears {before after : Machine Body} {header : ResponseHeader} {body : Bytes}
    {pending : Pending} {framer left : Framer}
    (found : before.pending.get? header.streamid = some pending)
    (move : StreamMove before header body pending framer after left) :
    ∃ events, Hears before after events ∧ ∀ event ∈ events, event.losesPath = false := by
  have held : before.inFlight header.streamid := Dict.mem_keys_of_get found
  cases move with
  | raised => exact ⟨[], Hears.refl before, by simp⟩
  | completed => exact ⟨[_], Hears.ended held rfl rfl, by simp [Event.losesPath]⟩
  | failed => exact ⟨[_], Hears.ended held rfl rfl, by simp [Event.losesPath]⟩
  | unexpected => exact ⟨[_], Hears.ended held rfl rfl, by simp [Event.losesPath]⟩
  | chunk =>
      exact ⟨[_], Hears.going held rfl (update_paths found rfl) rfl rfl, by simp [Event.losesPath]⟩
  | redirected =>
      exact ⟨[_], Hears.going held rfl (fun _ => rfl) rfl rfl, by simp [Event.losesPath]⟩
  | waiting => exact ⟨[_], Hears.going held rfl (fun _ => rfl) rfl rfl, by simp [Event.losesPath]⟩
  | collecting => exact ⟨[], Hears.silent rfl (update_paths found rfl), by simp⟩
  | settled info =>
      obtain ⟨events, later, whole⟩ := on_status_data_hears header.streamid []
        (updatePending header.streamid { pending with status := some info } before)
      have first : Hears before
          (updatePending header.streamid { pending with status := some info } before) [] :=
        Hears.silent rfl (update_paths found rfl)
      exact ⟨events, first.trans later, whole⟩

section Turns

variable [Exchange Body] (installation : Installation Body)

theorem turn_hears {pathid : Nat} {machine : Machine Body}
    (running : machine.state.bringingUp = false) :
    ∃ events, Hears machine (final (turn installation pathid machine)) events ∧
      ∀ event ∈ events, event.losesPath = false := by
  have move := turn_move installation pathid machine
  generalize final (turn installation pathid machine) = after at move
  cases move with
  | refused => exact ⟨[], Hears.refl machine, by simp⟩
  | waited | orphan | garbled | unknown => exact ⟨[], Hears.silent rfl fun _ => rfl, by simp⟩
  | trailer sid data framer =>
      obtain ⟨events, hears, whole⟩ := on_status_data_hears sid data
        (storeFramer pathid framer machine)
      exact ⟨events, ⟨hears.queued, hears.ends, hears.named, hears.placed, hears.lost⟩, whole⟩
  | notice header body framer info =>
      refine ⟨[_], Hears.nameless rfl rfl rfl ?_, by simp [Event.losesPath]⟩
      exact fun pathid reason same => by cases same
  | bringup outer inner whole body framer cut opened waiting =>
      rw [running] at waiting
      cases waiting
  | stream outer inner whole body framer left pending cut opened idle found move =>
      have found : (storeFramer pathid framer machine).pending.get? inner.streamid = some pending :=
        found
      obtain ⟨events, hears, whole⟩ := move.hears found
      exact ⟨events, ⟨hears.queued, hears.ends, hears.named, hears.placed, hears.lost⟩, whole⟩

end Turns

theorem Hears.failures {before after : Machine Body} (streams : List (Nat × Pending))
    (error : Exception)
    (queued : after.events = before.events ++ streams.map fun entry =>
      .failed (some entry.1) (some entry.2.request) error)
    (held : ∀ sid ∈ streams.map Prod.fst, before.inFlight sid)
    (left : ∀ sid, after.pending.get? sid =
      if sid ∈ streams.map Prod.fst then none else before.pending.get? sid) :
    Hears before after (streams.map fun entry =>
      .failed (some entry.1) (some entry.2.request) error) := by
  constructor
  · exact queued
  · intro sid
    rw [inFlight, inFlight, Dict.mem_keys, Dict.mem_keys, left sid, List.forall_mem_map]
    by_cases listed : sid ∈ streams.map Prod.fst
    · obtain ⟨entry, member, same⟩ := List.mem_map.mp listed
      rw [if_pos listed]
      constructor
      · rintro ⟨pending, none⟩
        cases none
      · rintro ⟨-, open_⟩
        have ends := open_ entry member
        simp [Event.ends, Event.stream, Event.terminal, same] at ends
    · rw [if_neg listed]
      have apart : ∀ entry ∈ streams, entry.1 ≠ sid :=
        fun entry member same => listed (List.mem_map.mpr ⟨entry, member, same⟩)
      constructor
      · intro present
        refine ⟨present, fun entry member => ?_⟩
        simp [Event.ends, Event.stream, Event.terminal, apart entry member]
      · exact fun both => both.1
  · intro event member sid names
    obtain ⟨entry, inside, rfl⟩ := List.mem_map.mp member
    cases names
    exact held entry.1 (List.mem_map.mpr ⟨entry, inside, rfl⟩)
  · intro sid pending found
    rw [left sid] at found
    split_ifs at found
    exact ⟨pending, found, rfl⟩
  · intro pathid reason member
    obtain ⟨entry, -, same⟩ := List.mem_map.mp member
    cases same

theorem eof_hears (pathid : Nat) (machine : Machine Body) :
    ∃ events, Hears machine (eof pathid machine) events ∧
      ∀ event ∈ events, ∀ cap, event.Capped cap := by
  unfold eof
  dsimp only
  split_ifs with control
  · unfold onEof
    dsimp only
    split_ifs
    · exact ⟨[], Hears.silent rfl fun _ => rfl, by simp⟩
    · let failed : Machine Body := { machine with
        events := machine.events ++ machine.pending.entries.map (fun entry =>
          .failed (some entry.1) (some entry.2.request)
            (.connectionError (str "connection closed by peer")))
        pending := ∅ }
      have first : Hears machine failed (machine.pending.entries.map fun entry =>
          .failed (some entry.1) (some entry.2.request)
            (.connectionError (str "connection closed by peer"))) := by
        apply Hears.failures machine.pending.entries
          (.connectionError (str "connection closed by peer")) rfl
        · exact fun sid member => member
        · intro sid
          change none = _
          split_ifs with listed
          · rfl
          · exact ((Dict.get_eq_none machine.pending sid).mpr listed).symm
      refine ⟨_, first.trans (Hears.nameless rfl rfl rfl ?_), ?_⟩
      · exact fun pathid reason same => by cases same
      · rw [List.forall_mem_append, List.forall_mem_map, List.forall_mem_singleton]
        exact ⟨fun entry member cap => trivial, fun cap => trivial⟩
  · let reason := str "data path " ++ Text.ofNat pathid ++ str " closed by peer"
    let known : Machine Body := { machine with framers := machine.framers.setDefault pathid {} }
    let failed : Machine Body := { known with
      events := known.events ++ (streamsOn pathid known).map fun entry =>
        .failed (some entry.1) (some entry.2.request) (.connectionError reason) }
    have first : Hears machine (forgetPath pathid failed) ((streamsOn pathid known).map fun entry =>
        .failed (some entry.1) (some entry.2.request) (.connectionError reason)) := by
      apply Hears.failures (streamsOn pathid known) (.connectionError reason)
      · rw [forget_path_frame]
      · intro sid member
        obtain ⟨pending, found, -⟩ := (mem_streams_on pathid sid known).mp member
        exact Dict.mem_keys_of_get found
      · exact fun sid => forget_path_pending pathid sid failed
    have second : Hears (forgetPath pathid failed)
        (emit (.pathLost pathid reason) (forgetPath pathid failed)) [.pathLost pathid reason] := by
      constructor
      · rfl
      · intro sid
        simp [inFlight, emit, Event.ends, Event.stream]
      · intro event member sid names
        rw [List.mem_singleton.mp member] at names
        cases names
      · exact fun sid pending found => ⟨pending, found, rfl⟩
      · intro other why member sid pending found here
        cases List.mem_singleton.mp member
        have found : (forgetPath pathid failed).pending.get? sid = some pending := found
        rw [forget_path_pending] at found
        split_ifs at found with listed
        exact listed ((mem_streams_on pathid sid failed).mpr ⟨pending, found, here⟩)
    refine ⟨_, first.trans second, ?_⟩
    rw [List.forall_mem_append, List.forall_mem_map, List.forall_mem_singleton]
    exact ⟨fun entry member cap => trivial, fun cap => trivial⟩

/-- What is queued was there or is capped, and the settings stay. -/
def Caps (before after : Machine Body) : Prop :=
  after.config = before.config ∧
    ∀ event ∈ after.events, event ∈ before.events ∨ event.Capped before.config.waitCap

theorem Caps.trans {first second third : Machine Body} (one : Caps first second)
    (two : Caps second third) : Caps first third := by
  refine ⟨two.1.trans one.1, fun event member => ?_⟩
  rcases two.2 event member with old | capped
  · exact one.2 event old
  · rw [one.1] at capped
    exact Or.inr capped

theorem Caps.quiet {before after : Machine Body} (config : after.config = before.config)
    (events : after.events = before.events) : Caps before after :=
  ⟨config, fun _ member => Or.inl (events ▸ member)⟩

theorem Caps.one {before after : Machine Body} {event : Event}
    (config : after.config = before.config) (events : after.events = before.events ++ [event])
    (capped : event.Capped before.config.waitCap) : Caps before after := by
  refine ⟨config, fun told member => ?_⟩
  rw [events] at member
  rcases List.mem_append.mp member with old | new
  · exact Or.inl old
  · exact Or.inr (List.mem_singleton.mp new ▸ capped)

theorem emit_release_caps {event : Event} (sid : Nat) (machine : Machine Body)
    (capped : event.Capped machine.config.waitCap) :
    Caps machine (emit event (release sid machine)) := by
  apply Caps.one _ _ capped
  · rw [release_frame]
    rfl
  · rw [release_frame]
    rfl

theorem on_status_data_caps (sid : Nat) (data : Bytes) (machine : Machine Body) :
    Caps machine (onStatusData sid data machine) := by
  unfold onStatusData
  cases machine.pending.get? sid with
  | none => exact Caps.quiet rfl rfl
  | some pending =>
      dsimp only
      cases pending.status with
      | none => exact Caps.quiet rfl rfl
      | some info =>
          dsimp only
          split_ifs
          · exact emit_release_caps sid machine trivial
          · exact Caps.one rfl rfl trivial

theorem on_response_caps (header : ResponseHeader) (body : Bytes) (pending : Pending)
    (framer : Framer) (machine : Machine Body) :
    Caps machine (final (onResponse header body pending framer machine)) := by
  have quiet : Caps machine machine := Caps.quiet rfl rfl
  unfold onResponse
  split_ifs with ok sofar error redirect wait waitresp status
  · exact emit_release_caps _ machine trivial
  · exact Caps.one rfl rfl trivial
  · rw [run_bind]
    cases parseError body with
    | error failure => exact quiet
    | ok info => exact emit_release_caps _ machine trivial
  · rw [run_bind]
    cases parseRedirect body with
    | error failure => exact quiet
    | ok target => exact Caps.one rfl rfl trivial
  · rw [run_bind]
    cases parseWait body with
    | error failure => exact quiet
    | ok told => exact Caps.one rfl rfl (min_le_right _ _)
  · rw [run_bind]
    cases parseWaitresp body with
    | error failure => exact quiet
    | ok told => exact Caps.one rfl rfl trivial
  · rw [run_bind]
    cases parseStatus body with
    | error failure => exact quiet
    | ok info =>
        simp only [attempt_ok, run_bind, run_modify]
        have noted : Caps machine
            (updatePending header.streamid { pending with status := some info } machine) :=
          Caps.quiet rfl rfl
        by_cases short : info.dlen = 0
        · rw [if_neg (not_not.mpr short)]
          exact noted.trans (on_status_data_caps _ _ _)
        · rw [if_pos short]
          exact noted
  · exact emit_release_caps _ machine trivial

section Feeds

variable [Exchange Body] (installation : Installation Body)

theorem turn_caps {pathid : Nat} {machine : Machine Body}
    (running : machine.state.bringingUp = false) :
    Caps machine (final (turn installation pathid machine)) := by
  have stored : ∀ framer, Caps machine (storeFramer pathid framer machine) :=
    fun framer => Caps.quiet rfl rfl
  rw [turn_run]
  cases (machine.framer pathid).next with
  | waits framer => exact stored framer
  | raises error => exact Caps.quiet rfl rfl
  | trailer sid data framer =>
      cases sid with
      | none => exact stored framer
      | some sid => exact (stored framer).trans (on_status_data_caps _ _ _)
  | frame outer whole framer =>
      simp only [dispatch_run]
      cases content outer whole with
      | error error => exact stored framer
      | ok carried =>
          cases carried with
          | notice info => exact Caps.one rfl rfl trivial
          | response inner body =>
              have idle : ¬(storeFramer pathid framer machine).state.bringingUp = true := by
                rw [storeFramer, running]
                exact Bool.false_ne_true
              dsimp only
              rw [respond_run, if_neg idle]
              cases (storeFramer pathid framer machine).pending.get? inner.streamid with
              | none => exact (stored framer).trans (Caps.quiet rfl rfl)
              | some pending =>
                  have caps := on_response_caps inner body pending framer
                    (storeFramer pathid framer machine)
                  dsimp only
                  cases ran : onResponse inner body pending framer
                      (storeFramer pathid framer machine) with
                  | ok left after =>
                      rw [ran] at caps
                      exact ((stored framer).trans caps).trans (Caps.quiet rfl rfl)
                  | error error after =>
                      rw [ran] at caps
                      exact (stored framer).trans caps

/-- What is known of a machine that has taken bytes off a link. -/
structure Received (before after : Machine Body) (events : List Event) : Prop where
  hears : Hears before after events
  caps : Caps before after
  running : after.state.bringingUp = false

omit [Exchange Body] in
theorem Received.trans {first second third : Machine Body} {early late : List Event}
    (one : Received first second early) (two : Received second third late) :
    Received first third (early ++ late) :=
  ⟨one.hears.trans two.hears, one.caps.trans two.caps, two.running⟩

omit [Exchange Body] in
theorem Received.capped {before after : Machine Body} {events : List Event}
    (received : Received before after events)
    (queue : ∀ event ∈ before.events, event.Capped before.config.waitCap) :
    ∀ event ∈ after.events, event.Capped after.config.waitCap := by
  intro event member
  rw [received.caps.1]
  exact (received.caps.2 event member).elim (queue event) id

theorem turn_received {pathid : Nat} {machine : Machine Body}
    (running : machine.state.bringingUp = false) :
    ∃ events, Received machine (final (turn installation pathid machine)) events ∧
      ∀ event ∈ events, event.losesPath = false := by
  obtain ⟨events, hears, whole⟩ := @turn_hears Body _ installation pathid machine running
  have only := (turn_move installation pathid machine).only running
  refine ⟨events, ⟨hears, turn_caps installation running, ?_⟩, whole⟩
  rw [only.state]
  exact running

theorem parse_received (pathid fuel : Nat) {machine : Machine Body}
    (running : machine.state.bringingUp = false) :
    ∃ events, Received machine (final (parse installation pathid fuel machine)) events ∧
      ∀ event ∈ events, event.losesPath = false := by
  induction fuel generalizing machine with
  | zero => exact ⟨[], ⟨Hears.refl machine, Caps.quiet rfl rfl, running⟩, by simp⟩
  | succ fuel induction =>
      obtain ⟨events, first, whole⟩ := @turn_received Body _ installation pathid machine running
      rw [parse, run_bind]
      cases taken : turn installation pathid machine with
      | error error left =>
          rw [taken] at first
          exact ⟨events, first, whole⟩
      | ok more left =>
          rw [taken] at first
          cases more with
          | false => exact ⟨events, first, whole⟩
          | true =>
              obtain ⟨later, rest, still⟩ := induction first.running
              exact ⟨events ++ later, first.trans rest, List.forall_mem_append.mpr ⟨whole, still⟩⟩

omit [Exchange Body] in
theorem eof_received (pathid : Nat) {machine : Machine Body}
    (running : machine.state.bringingUp = false) :
    ∃ events, Received machine (eof pathid machine) events := by
  obtain ⟨events, hears, capped⟩ := eof_hears pathid machine
  have kept : (eof pathid machine).config = machine.config ∧
      (eof pathid machine).state.bringingUp = false := by
    rcases eof_cases pathid machine with ⟨-, -, only⟩ | ⟨-, -, only⟩ | ⟨-, only⟩
    · rw [only.same]
      exact ⟨rfl, running⟩
    · rw [only.same]
      exact ⟨rfl, rfl⟩
    · rw [only.same]
      exact ⟨rfl, running⟩
  refine ⟨events, hears, ⟨kept.1, fun event member => ?_⟩, kept.2⟩
  rw [hears.queued] at member
  exact (List.mem_append.mp member).imp id fun new => capped event new _

theorem receive_received (data : Bytes) (pathid : Nat) {machine : Machine Body}
    (running : machine.state.bringingUp = false) :
    ∃ events, Received machine (final (receiveData installation data pathid machine)) events ∧
      (raised (receiveData installation data pathid machine) ≠ none →
        ∀ event ∈ events, event.losesPath = false) := by
  rw [receive_data_run]
  split_ifs
  · obtain ⟨events, received⟩ := eof_received pathid running
    exact ⟨events, received, fun never => absurd rfl never⟩
  · have fed : Received machine (feed data pathid machine) [] :=
      ⟨Hears.silent rfl fun _ => rfl, Caps.quiet rfl rfl, running⟩
    obtain ⟨events, parsed, whole⟩ := parse_received installation pathid
      (parseFuel ((feed data pathid machine).framer pathid)) fed.running
    exact ⟨events, fed.trans parsed, fun _ => whole⟩

end Feeds

end Machine

end XRootDClient.Proto
