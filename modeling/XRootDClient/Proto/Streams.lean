import XRootDClient.Proto.Runs

/-!
# Streams and their events

A stream is in flight while the pending table holds its id. `Lawful` says what
a move may report: an event that names a stream names one in flight, and a
terminal event takes it out of flight. Every move of the machine is lawful, so
the log of a whole run is.
-/

set_option autoImplicit false

namespace XRootDClient.Proto

open Lib Lib.BigEndian Lib.Stateful Lib.Run Auth

def Event.stream : Event → Option Nat
  | .completed sid _ _ _ => some sid
  | .chunk sid _ _ => some sid
  | .redirected sid _ _ => some sid
  | .waiting sid _ _ _ _ => some sid
  | .failed sid _ _ => sid
  | _ => none

/-- A `Completed` or a `Failed` is the last event of the stream it names. -/
def Event.terminal : Event → Bool
  | .completed _ _ _ _ => true
  | .failed _ _ _ => true
  | _ => false

def Event.ends (event : Event) (sid : Nat) : Bool :=
  event.terminal && event.stream == some sid

/-- Events in order, from the streams in flight before them to those after. -/
inductive Lawful : (Nat → Prop) → List Event → (Nat → Prop) → Prop
  | done {live left : Nat → Prop} (fewer : ∀ sid, left sid → live sid) : Lawful live [] left
  | event {live left : Nat → Prop} {event : Event} {rest : List Event}
      (named : ∀ sid, event.stream = some sid → live sid)
      (later : Lawful (fun sid => live sid ∧ event.ends sid = false) rest left) :
      Lawful live (event :: rest) left

theorem Lawful.mono {live more left : Nat → Prop} {events : List Event}
    (lawful : Lawful live events left) (wider : ∀ sid, live sid → more sid) :
    Lawful more events left := by
  induction lawful generalizing more with
  | done fewer => exact .done fun sid kept => wider sid (fewer sid kept)
  | event named later induction =>
      refine .event (fun sid names => wider sid (named sid names)) (induction ?_)
      intro sid both
      exact ⟨wider sid both.1, both.2⟩

theorem Lawful.append {live middle left : Nat → Prop} {first second : List Event}
    (before : Lawful live first middle) (after : Lawful middle second left) :
    Lawful live (first ++ second) left := by
  induction before with
  | done fewer => exact after.mono fewer
  | event named later induction => exact .event named (induction after)

theorem Lawful.nameless {live left : Nat → Prop} {events : List Event}
    (fewer : ∀ sid, left sid → live sid) (silent : ∀ event ∈ events, event.stream = none) :
    Lawful live events left := by
  induction events generalizing live with
  | nil => exact .done fewer
  | cons event rest induction =>
      have none : event.stream = none := silent event (by simp)
      refine .event (by simp [none]) (induction ?_ fun other member => silent other (by simp [member]))
      intro sid kept
      exact ⟨fewer sid kept, by simp [Event.ends, none]⟩

namespace Machine

variable {Body : Type}

def inFlight (machine : Machine Body) (sid : Nat) : Prop := sid ∈ machine.pending.keys

theorem release_pending (sid : Nat) (machine : Machine Body) :
    (release sid machine).pending = machine.pending.erase sid := by
  unfold release
  cases found : machine.pending.get? sid with
  | none => rw [Dict.erase_absent _ found]
  | some pending => rfl

theorem release_only (sid : Nat) (machine : Machine Body) :
    StreamsOnly machine (release sid machine) := by
  constructor
  rw [release_frame]

theorem in_flight_release (sid other : Nat) (machine : Machine Body) :
    (release sid machine).inFlight other ↔ other ≠ sid ∧ machine.inFlight other := by
  rw [inFlight, release_pending, Dict.mem_keys_erase]
  rfl

theorem in_flight_update (sid other : Nat) (pending : Pending) (machine : Machine Body)
    (held : machine.inFlight sid) :
    (updatePending sid pending machine).inFlight other ↔ machine.inFlight other := by
  simp only [inFlight, updatePending, Dict.keys_set_of_mem machine.pending held]

theorem release_all_pending (streams : List (Nat × Pending)) (machine : Machine Body)
    (sid : Nat) :
    (streams.foldl (fun machine entry => release entry.1 machine) machine).pending.get? sid =
      if sid ∈ streams.map Prod.fst then none else machine.pending.get? sid := by
  induction streams generalizing machine with
  | nil => simp
  | cons entry rest induction =>
      rw [List.foldl_cons, induction, release_pending, Dict.get_erase]
      by_cases later : sid ∈ rest.map Prod.fst
      · simp [later]
      · by_cases here : sid = entry.1
        · simp [here]
        · simp [here, later]

theorem release_all_frame (streams : List (Nat × Pending)) (machine : Machine Body) :
    let released := streams.foldl (fun machine entry => release entry.1 machine) machine
    released = { machine with pending := released.pending, free := released.free } := by
  induction streams generalizing machine with
  | nil => rfl
  | cons entry rest induction =>
      have first := release_frame entry.1 machine
      have later := induction (release entry.1 machine)
      simp only [List.foldl_cons] at later ⊢
      rw [later, first]

theorem mem_streams_on (pathid sid : Nat) (machine : Machine Body) :
    sid ∈ (streamsOn pathid machine).map Prod.fst ↔
      ∃ pending, machine.pending.get? sid = some pending ∧ pending.pathid = pathid := by
  constructor
  · intro member
    obtain ⟨entry, inside, rfl⟩ := List.mem_map.mp member
    obtain ⟨listed, routed⟩ := List.mem_filter.mp inside
    exact ⟨entry.2, (Dict.get_eq_some _ _ _).mpr listed, of_decide_eq_true routed⟩
  · rintro ⟨pending, found, routed⟩
    refine List.mem_map.mpr ⟨(sid, pending), List.mem_filter.mpr ⟨?_, ?_⟩, rfl⟩
    · exact (Dict.get_eq_some _ _ _).mp found
    · exact decide_eq_true routed

theorem forget_path_pending (pathid sid : Nat) (machine : Machine Body) :
    (forgetPath pathid machine).pending.get? sid =
      if sid ∈ (streamsOn pathid machine).map Prod.fst then none
      else machine.pending.get? sid :=
  release_all_pending (streamsOn pathid machine) machine sid

theorem in_flight_forget_path (pathid sid : Nat) (machine : Machine Body) :
    (forgetPath pathid machine).inFlight sid ↔
      sid ∉ (streamsOn pathid machine).map Prod.fst ∧ machine.inFlight sid := by
  rw [inFlight, Dict.mem_keys, forget_path_pending, inFlight, Dict.mem_keys]
  by_cases listed : sid ∈ (streamsOn pathid machine).map Prod.fst
  · simp [listed]
  · rw [if_neg listed]
    exact ⟨fun held => ⟨listed, held⟩, fun both => both.2⟩

theorem forget_path_frame (pathid : Nat) (machine : Machine Body) :
    forgetPath pathid machine = { machine with
      pending := (forgetPath pathid machine).pending
      free := (forgetPath pathid machine).free
      framers := machine.framers.erase pathid
      outPath := machine.outPath.erase pathid } := by
  have frame := release_all_frame (streamsOn pathid machine) machine
  simp only at frame
  simp only [forgetPath]
  rw [frame]

def dropOutbox (pathid : Nat) (machine : Machine Body) : Machine Body :=
  { machine with outPath := machine.outPath.erase pathid }

theorem forget_path_only (pathid : Nat) (machine : Machine Body) :
    StreamsOnly (dropOutbox pathid machine) (forgetPath pathid machine) := by
  constructor
  rw [forget_path_frame]
  rfl

theorem on_path_eof_only (pathid : Nat) (machine : Machine Body) :
    StreamsOnly (dropOutbox pathid machine) (onPathEof pathid machine) := by
  constructor
  simp only [onPathEof, emit]
  rw [forget_path_frame]
  rfl

/-- The end of a link: the control link's closes a machine that is not yet
closed or failed, a path's drops the path. -/
theorem eof_cases (pathid : Nat) (machine : Machine Body) :
    (pathid = 0 ∧ (machine.state = .CLOSED ∨ machine.state = .FAILED) ∧
      StreamsOnly machine (eof pathid machine)) ∨
    (pathid = 0 ∧ ¬(machine.state = .CLOSED ∨ machine.state = .FAILED) ∧
      StreamsOnly { machine with state := .CLOSED } (eof pathid machine)) ∨
    (pathid ≠ 0 ∧ StreamsOnly (dropOutbox pathid machine) (eof pathid machine)) := by
  unfold eof
  dsimp only
  by_cases control : pathid = 0
  · rw [if_pos control, onEof]
    split
    · next done => exact .inl ⟨control, done, ⟨rfl⟩⟩
    · next open_ => exact .inr (.inl ⟨control, open_, ⟨rfl⟩⟩)
  · rw [if_neg control]
    have only := on_path_eof_only pathid
      { machine with framers := machine.framers.setDefault pathid {} }
    refine .inr (.inr ⟨control, ⟨?_⟩⟩)
    rw [only.same]
    rfl

/-- The move reported these events, and they account for the streams in flight. -/
structure Reports (before after : Machine Body) (events : List Event) : Prop where
  queued : after.events = before.events ++ events
  lawful : Lawful before.inFlight events after.inFlight

theorem Reports.trans {first second third : Machine Body} {before after : List Event}
    (one : Reports first second before) (two : Reports second third after) :
    Reports first third (before ++ after) where
  queued := by rw [two.queued, one.queued, List.append_assoc]
  lawful := one.lawful.append two.lawful

theorem reports_silent {before after : Machine Body} (same : after.events = before.events)
    (fewer : ∀ sid, after.inFlight sid → before.inFlight sid) : Reports before after [] where
  queued := by rw [same, List.append_nil]
  lawful := .done fewer

theorem reports_nameless {before after : Machine Body} {events : List Event}
    (queued : after.events = before.events ++ events) (same : after.pending = before.pending)
    (silent : ∀ event ∈ events, event.stream = none) : Reports before after events where
  queued := queued
  lawful := .nameless (fun sid held => by rwa [inFlight, same] at held) silent

theorem reports_ended {machine : Machine Body} {sid : Nat} {event : Event}
    (held : machine.inFlight sid) (names : event.stream = some sid) (last : event.terminal = true) :
    Reports machine (emit event (release sid machine)) [event] where
  queued := by
    rw [release_frame]
    rfl
  lawful := by
    refine .event (fun other same => ?_) (.done fun other kept => ?_)
    · rw [names, Option.some.injEq] at same
      exact same ▸ held
    · have parts := (in_flight_release sid other machine).mp kept
      refine ⟨parts.2, ?_⟩
      simp [Event.ends, last, names, parts.1.symm]

theorem reports_going {before after : Machine Body} {sid : Nat} {event : Event}
    (held : before.inFlight sid) (queued : after.events = before.events ++ [event])
    (same : ∀ other, after.inFlight other ↔ before.inFlight other)
    (names : event.stream = some sid) (going : event.terminal = false) :
    Reports before after [event] where
  queued := queued
  lawful := by
    refine .event (fun other named => ?_) (.done fun other kept => ?_)
    · rw [names, Option.some.injEq] at named
      exact named ▸ held
    · exact ⟨(same other).mp kept, by simp [Event.ends, going]⟩

theorem on_status_data_reports (sid : Nat) (data : Bytes) (machine : Machine Body) :
    ∃ events, Reports machine (onStatusData sid data machine) events ∧
      ∀ event ∈ events, event.stream = some sid := by
  unfold onStatusData
  split
  · exact ⟨[], reports_silent rfl fun _ => id, by simp⟩
  · next pending found =>
      have held : machine.inFlight sid := Dict.mem_keys_of_get found
      split
      · exact ⟨[], reports_silent rfl fun _ => id, by simp⟩
      · split
        · exact ⟨[_], reports_ended held rfl rfl, by simp [Event.stream]⟩
        · refine ⟨[_], reports_going held rfl (fun other => ?_) rfl rfl, by simp [Event.stream]⟩
          exact in_flight_update sid other _ machine held

theorem StreamMove.reports {before after : Machine Body} {header : ResponseHeader} {body : Bytes}
    {pending : Pending} {framer left : Framer} (held : before.inFlight header.streamid)
    (move : StreamMove before header body pending framer after left) :
    ∃ events, Reports before after events ∧
      ∀ event ∈ events, event.stream = some header.streamid := by
  cases move with
  | raised => exact ⟨[], reports_silent rfl fun _ => id, by simp⟩
  | completed => exact ⟨[_], reports_ended held rfl rfl, by simp [Event.stream]⟩
  | failed => exact ⟨[_], reports_ended held rfl rfl, by simp [Event.stream]⟩
  | unexpected => exact ⟨[_], reports_ended held rfl rfl, by simp [Event.stream]⟩
  | chunk =>
      exact ⟨[_], reports_going held rfl
        (fun other => in_flight_update header.streamid other _ before held) rfl rfl,
        by simp [Event.stream]⟩
  | redirected =>
      exact ⟨[_], reports_going held rfl (fun _ => Iff.rfl) rfl rfl, by simp [Event.stream]⟩
  | waiting =>
      exact ⟨[_], reports_going held rfl (fun _ => Iff.rfl) rfl rfl, by simp [Event.stream]⟩
  | collecting info status parsed long =>
      exact ⟨[], reports_silent rfl fun other =>
        (in_flight_update header.streamid other _ before held).mp, by simp⟩
  | settled info status parsed short =>
      obtain ⟨events, later, named⟩ := on_status_data_reports header.streamid []
        (updatePending header.streamid { pending with status := some info } before)
      have first : Reports before
          (updatePending header.streamid { pending with status := some info } before) [] :=
        reports_silent rfl fun other =>
          (in_flight_update header.streamid other _ before held).mp
      exact ⟨events, first.trans later, named⟩

section BringUp

variable [Exchange Body] {installation : Installation Body}

omit [Exchange Body] in
theorem LadderMove.events {before after : Machine Body} (move : LadderMove before after) :
    ∃ events, after.events = before.events ++ events ∧ ∀ event ∈ events, event.stream = none := by
  cases move with
  | sent => exact ⟨[], by simp, by simp⟩
  | raised => exact ⟨[], by simp, by simp⟩
  | exhausted => exact ⟨[_], rfl, by simp [Event.stream]⟩

omit [Exchange Body] in
theorem LoginMove.events {before after : Machine Body}
    (move : LoginMove installation before after) : after.events = before.events := by
  cases move <;> rfl

theorem BringupMove.events {before after : Machine Body} {header : ResponseHeader} {body : Bytes}
    (move : BringupMove installation before header body after) :
    ∃ events, after.events = before.events ++ events ∧ ∀ event ∈ events, event.stream = none := by
  cases move with
  | raised => exact ⟨[], by simp, by simp⟩
  | shook => exact ⟨[], by simp, by simp⟩
  | failed => exact ⟨[_], rfl, by simp [Event.stream]⟩
  | refused info error =>
      exact ⟨[.negotiated info, .failed none none error], by simp [fail, negotiate, emit],
        by simp [Event.stream]⟩
  | upgrade info reason =>
      exact ⟨[.negotiated info, .needTls reason], by simp [negotiate, emit],
        by simp [Event.stream]⟩
  | bound => exact ⟨[_], rfl, by simp [Event.stream]⟩
  | entered => exact ⟨[_], rfl, by simp [Event.stream]⟩
  | authenticated => exact ⟨[_], rfl, by simp [Event.stream]⟩
  | login info was accepted parsed clear move =>
      exact ⟨[.negotiated info], by rw [move.events]; rfl, by simp [Event.stream]⟩
  | challenged login was accepted parsed asked move => exact move.events
  | stepped was more move => exact move.events

theorem TurnMove.reports {pathid : Nat} {before after : Machine Body}
    (move : TurnMove installation pathid before after) :
    ∃ events, Reports before after events := by
  cases move with
  | refused | waited | orphan | garbled | unknown => exact ⟨[], reports_silent rfl fun _ => id⟩
  | trailer sid data framer =>
      obtain ⟨events, later, -⟩ := on_status_data_reports sid data
        (storeFramer pathid framer before)
      exact ⟨events, later.queued, later.lawful⟩
  | notice header body framer info =>
      exact ⟨[_], reports_nameless rfl rfl (by simp [Event.stream])⟩
  | bringup outer inner whole body framer cut opened waiting ran move =>
      obtain ⟨events, queued, silent⟩ := move.events
      have same : after.pending = before.pending := by
        rw [move.frame]
        rfl
      exact ⟨events, reports_nameless queued same silent⟩
  | stream outer inner whole body framer left pending cut opened running found move =>
      have held : (storeFramer pathid framer before).inFlight inner.streamid :=
        Dict.mem_keys_of_get found
      obtain ⟨events, later, -⟩ := move.reports held
      exact ⟨events, later.queued, later.lawful⟩

end BringUp

end Machine

end XRootDClient.Proto
