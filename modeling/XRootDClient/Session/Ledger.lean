import XRootDClient.Proto.Relays
import XRootDClient.Session.Streaming

/-!
# A session and its server

What the calls of a session do to the machine, in order, and what the server sends between
them, are deeds of the world the machine is in; the world's ledger then knows, for every
call, what was sent in answer to it. All answers are due on the control link.
-/

set_option autoImplicit false

namespace XRootDClient.Proto

open Lib Lib.BigEndian Lib.Stateful Lib.Run Auth

variable {Body : Type}

namespace World

variable [Exchange Body] (installation : Installation Body)

def done (deeds : List Deed) (world : World Body) : World Body :=
  run (step installation) (movesOf installation deeds world) world

theorem moves_of_append (first second : List Deed) (world : World Body) :
    movesOf installation (first ++ second) world =
      movesOf installation first world ++ movesOf installation second
        (done installation first world) := by
  induction first generalizing world with
  | nil => rfl
  | cons deed rest induction =>
      rw [List.cons_append, movesOf, movesOf, induction, List.append_assoc, done, done, movesOf,
        run_append]

theorem done_append (first second : List Deed) (world : World Body) :
    done installation (first ++ second) world =
      done installation second (done installation first world) := by
  rw [done, moves_of_append, run_append]
  rfl

theorem traced_append (first second : List Deed) (world : World Body) :
    traced installation (first ++ second) world =
      traced installation first world ++ traced installation second
        (done installation first world) := by
  rw [traced, moves_of_append, history_append]
  rfl

theorem done_one (deed : Deed) (world : World Body) :
    done installation [deed] world =
      run (step installation) (moves installation deed world) world := by
  rw [done, movesOf, movesOf, List.append_nil]

theorem traced_one (deed : Deed) (world : World Body) :
    traced installation [deed] world =
      history (step installation) (moves installation deed world) world := by
  rw [traced, movesOf, movesOf, List.append_nil]

theorem run_client (labels : List Move) (world : World Body) :
    (run (step installation) (labels.map .client) world).machine =
      run (Machine.step installation) labels world.machine := by
  induction labels generalizing world with
  | nil => rfl
  | cons move rest induction =>
      rw [List.map_cons, run, run, induction, step_machine]

/-- The server's frames answer what it owes, what arrives is what was sent, and what has
arrived can be read. -/
def fair (entry : Entry WorldMove (World Body)) : Bool :=
  match entry.label with
  | .server _ | .client (.eof _) => lawful entry
  | .client (.feed _ link) => lawful entry && (raised (Machine.parse installation link
      (Machine.parseFuel (entry.after.machine.framer link)) entry.after.machine)).isNone
  | _ => true

end World

namespace Machine

/-- Whether a response ends the answer it is a piece of as soon as it is read. -/
def finalPiece (header : ResponseHeader) (body : Bytes) : Bool :=
  if header.status = kXR_status then
    match parseStatus body with
    | .ok info => info.dlen = 0 && info.isFinal
    | .error _ => false
  else header.status ∉ [kXR_oksofar, kXR_redirect, kXR_wait, kXR_waitresp]

def concludes (link : Nat) (machine : Machine Body) : Option Nat :=
  match (machine.framer link).next with
  | .trailer (some sid) _ _ =>
      if (machine.pending.get? sid).any fun pending => pending.status.any StatusInfo.isFinal then
        some sid
      else none
  | .frame header body _ =>
      match content header body with
      | .ok (.response inner body) =>
          if machine.pending.contains inner.streamid && finalPiece inner body then
            some inner.streamid
          else none
      | _ => none
  | _ => none

theorem ends_stream {event : Event} {sid : Nat} (ends : event.ends sid = true) :
    event.terminal = true ∧ event.stream = some sid := by
  rw [Event.ends, Bool.and_eq_true, beq_iff_eq] at ends
  exact ends

theorem on_status_data_ends {sid other : Nat} {data : Bytes} {machine : Machine Body}
    {noted : List Event} (queued : (onStatusData sid data machine).events = machine.events ++ noted)
    {event : Event} (member : event ∈ noted) (ends : event.ends other = true) :
    other = sid ∧ ∃ pending info, machine.pending.get? sid = some pending ∧
      pending.status = some info ∧ info.isFinal = true := by
  have quiet : machine.events = machine.events ++ noted → False := by
    intro same
    rw [List.self_eq_append_right.mp same] at member
    cases member
  unfold onStatusData at queued
  cases held : machine.pending.get? sid with
  | none =>
      rw [held] at queued
      exact absurd queued quiet
  | some pending =>
      rw [held] at queued
      dsimp only at queued
      cases status : pending.status with
      | none =>
          rw [status] at queued
          exact absurd queued quiet
      | some info =>
          rw [status] at queued
          dsimp only at queued
          cases final : info.isFinal with
          | true =>
              rw [final, if_pos rfl, emit_release_events] at queued
              rw [← List.append_cancel_left queued, List.mem_singleton] at member
              subst member
              obtain ⟨-, named⟩ := ends_stream ends
              cases named
              exact ⟨rfl, pending, info, rfl, status, final⟩
          | false =>
              rw [final, if_neg (by simp)] at queued
              change machine.events ++ [_] = _ at queued
              rw [← List.append_cancel_left queued, List.mem_singleton] at member
              subst member
              cases (ends_stream ends).1

theorem StreamMove.ends {before after : Machine Body} {header : ResponseHeader} {body : Bytes}
    {pending : Pending} {framer left : Framer}
    (move : StreamMove before header body pending framer after left) {noted : List Event}
    (queued : after.events = before.events ++ noted) {event : Event} (member : event ∈ noted)
    {sid : Nat} (ends : event.ends sid = true) :
    sid = header.streamid ∧ finalPiece header body = true := by
  have quiet : before.events = before.events ++ noted → False := by
    intro same
    rw [List.self_eq_append_right.mp same] at member
    cases member
  have single : ∀ {only : Event}, before.events ++ [only] = before.events ++ noted →
      event = only := by
    intro only same
    rw [← List.append_cancel_left same, List.mem_singleton] at member
    exact member
  obtain ⟨terminal, named⟩ := ends_stream ends
  cases move with
  | raised | collecting => exact absurd queued quiet
  | completed status =>
      rw [emit_release_events] at queued
      rw [single queued] at named
      cases named
      exact ⟨rfl, by rw [finalPiece, status]; rfl⟩
  | failed info status =>
      rw [emit_release_events] at queued
      rw [single queued] at named
      cases named
      exact ⟨rfl, by rw [finalPiece, status]; rfl⟩
  | unexpected message unknown =>
      rw [emit_release_events] at queued
      rw [single queued] at named
      cases named
      simp only [List.mem_cons, List.not_mem_nil, or_false, not_or] at unknown
      obtain ⟨-, sofar, -, redirect, wait, later, status⟩ := unknown
      refine ⟨rfl, ?_⟩
      rw [finalPiece, if_neg status]
      simp [sofar, redirect, wait, later]
  | chunk | redirected | waiting =>
      rw [single queued] at terminal
      cases terminal
  | settled info status parsed short =>
      obtain ⟨rfl, record, found, held, recorded, final⟩ := on_status_data_ends queued member ends
      change (before.pending.set header.streamid _).get? _ = _ at held
      rw [Dict.get_set_self] at held
      cases held
      cases recorded
      refine ⟨rfl, ?_⟩
      rw [finalPiece, if_pos status, parsed]
      simp [short, final]

variable [Exchange Body] (installation : Installation Body)

theorem turn_concludes {link : Nat} {machine : Machine Body}
    (running : machine.state.bringingUp = false) {noted : List Event}
    (queued : (step installation (.turn link) machine).events = machine.events ++ noted)
    {event : Event} (member : event ∈ noted) {sid : Nat} (ends : event.ends sid = true) :
    concludes link machine = some sid := by
  have quiet : machine.events = machine.events ++ noted → False := by
    intro same
    rw [List.self_eq_append_right.mp same] at member
    cases member
  have moved := turn_move installation link machine
  change (final (turn installation link machine)).events = _ at queued
  generalize final (turn installation link machine) = after at moved queued
  cases moved with
  | refused | waited | orphan | garbled | unknown => exact absurd queued quiet
  | trailer other data left cut =>
      obtain ⟨rfl, pending, info, held, recorded, final⟩ := on_status_data_ends queued member ends
      change machine.pending.get? sid = _ at held
      rw [concludes, cut]
      simp [held, recorded, final]
  | notice header body left info cut opened =>
      change machine.events ++ [_] = _ at queued
      rw [← List.append_cancel_left queued, List.mem_singleton] at member
      subst member
      cases (ends_stream ends).1
  | bringup outer inner whole body left cut opened waiting =>
      rw [running] at waiting
      cases waiting
  | stream outer inner whole body left answered pending cut opened idle found move =>
      obtain ⟨rfl, final⟩ := move.ends queued member ends
      rw [concludes, cut]
      simp [opened, Dict.contains, found, final]

end Machine

end XRootDClient.Proto

namespace XRootDClient.Sync

open Lib Lib.BigEndian Lib.Stateful Lib.Run Auth Proto

variable {Body : Type}

/-- What the server sends before a turn of the pump, and what the turn meets. -/
structure Beat where
  sends : List Sent := []
  arrival : Arrival

/-- A call, and what the network and the server do while it lasts. -/
structure Round where
  caller : Caller := {}
  request : Request
  path : Text := []
  arriveOnPath : Bool := false
  beats : List Beat

namespace Session

def flushPathCalls : List Nat → Option Fault → Machine Body → List Call
  | [], _, _ => []
  | pathid :: rest, fault, machine =>
      .pathDataToSend pathid ::
        match transmit (Machine.pathDataToSend pathid machine).1 fault with
        | .error _ => []
        | .ok fault => flushPathCalls rest fault (Machine.pathDataToSend pathid machine).2

def flushCalls (fault : Option Fault) (session : Session Body) : List Call :=
  .dataToSend ::
    match transmit (Machine.dataToSend session.machine).1 fault with
    | .error _ => []
    | .ok fault => flushPathCalls session.paths fault (Machine.dataToSend session.machine).2

variable [Exchange Body] (installation : Installation Body)

/-- What is fed to the machine, and the events that are read from it. -/
def feedCalls (received : Except Exception Bytes) (machine : Machine Body) : List Call :=
  match received with
  | .error _ => []
  | .ok data =>
      .receiveData data 0 ::
        match Machine.receiveData installation data 0 machine with
        | .error _ _ => []
        | .ok _ machine => List.replicate machine.events.length .nextEvent

def pumpDeeds (beat : Beat) (session : Session Body) : List Deed :=
  beat.sends.map .sends ++ (flushCalls beat.arrival.fault session).map .call ++
    match flush beat.arrival.fault session with
    | .error _ _ => []
    | .ok _ session => (feedCalls installation beat.arrival.received session.machine).map .call

end Session

section Await

variable (caller : Caller) (sid : Nat)

def heedCalls (event : Event) (progress : Progress) (session : Session Body) : List Call :=
  match event with
  | .redirected _ _ _ => [.release sid]
  | .waiting _ _ seconds _ true =>
      if session.machine.config.redirectLimit < (progress.waits + 1 : Nat) ∨ seconds < 0 then []
      else
        .resume sid ::
          match Session.onMachine (Machine.resume sid) session with
          | .error _ _ => []
          | .ok _ session => Session.flushCalls (caller.resends (progress.waits + 1)) session
  | _ => []

def handleCalls : List Event → Progress → Session Body → List Call
  | [], _, _ => []
  | event :: rest, progress, session =>
      heedCalls caller sid event progress session ++
        match heed caller sid event progress session with
        | (some _, _, _) => []
        | (none, progress, session) => handleCalls rest progress session

variable [Exchange Body] (installation : Installation Body)

def awaitDeeds : List Beat → List Event → Progress → Session Body → List Deed
  | [], events, progress, session => (handleCalls caller sid events progress session).map .call
  | beat :: rest, events, progress, session =>
      (handleCalls caller sid events progress session).map .call ++
        match handle caller sid events progress session with
        | (some _, _, _) => []
        | (none, progress, session) =>
            session.pumpDeeds installation beat ++
              match session.listen installation sid 0 beat.arrival with
              | .error _ _ => []
              | .ok mine session => awaitDeeds rest mine progress session

end Await

def timely (sid : Nat) (entry : Entry WorldMove (World Body)) : Bool :=
  match entry.label with
  | .client (.turn link) => (entry.before.machine.concludes link).all (· = sid)
  | _ => true

namespace Round

variable [Exchange Body] (installation : Installation Body) (round : Round)

omit [Exchange Body] in
/-- The stream id the call is given, and the session it then waits on. -/
def issues (session : Session Body) : Option (Nat × Session Body) :=
  session.issues round.request round.path round.arriveOnPath

def outcome (session : Session Body) : Outcome Body :=
  session.execute installation round.caller round.request round.path round.arriveOnPath
    (round.beats.map Beat.arrival)

/-- The deeds of the call, up to where it leaves or what arrives is used up. -/
def deeds (session : Session Body) : List Deed :=
  if session.closed || round.request.pathid ≠ 0 && round.request.pathid ∉ session.paths then []
  else
    .call (.submit round.request round.path (session.onPath round.request round.arriveOnPath)) ::
      match round.issues session with
      | none => []
      | some (sid, left) => awaitDeeds round.caller sid installation round.beats (left.parked sid) {}
          (left.unpark sid)

omit [Exchange Body] in
def onControl (session : Session Body) : Bool :=
  Session.answersOn round.request (session.onPath round.request round.arriveOnPath) = 0

end Round

/-- The sessions there can be, each with its world: one that has just been brought up, and what
calls leave whose answers are due on the control link, with a fair server and every move of a
call as the condition has it for the stream the call waits for. -/
inductive Served [Exchange Body] (installation : Installation Body)
    (condition : Nat → Entry WorldMove (World Body) → Bool) : Session Body → World Body → Prop
  | connected {machine : Machine Body} (fresh : World.idle machine = true)
      (read : machine.events = []) : Served installation condition { machine } { machine }
  | bound {session : Session Body} {world : World Body} (pathid : Nat)
      (served : Served installation condition session world) :
      Served installation condition { session with paths := session.paths ++ [pathid] } world
  | noticed {session : Session Body} {world : World Body}
      (served : Served installation condition session world) :
      Served installation condition { session with notices := [] } world
  | executed {session : Session Body} {world : World Body} (round : Round)
      (control : round.onControl session = true)
      (fair : ∀ entry ∈ World.traced installation (round.deeds installation session) world,
        World.fair installation entry = true)
      (held : ∀ sid left, round.issues session = some (sid, left) →
        ∀ entry ∈ World.traced installation (round.deeds installation session) world,
          condition sid entry = true)
      (served : Served installation condition session world) :
      Served installation condition (round.outcome installation session).2.2
        (World.done installation (round.deeds installation session) world)

end XRootDClient.Sync
