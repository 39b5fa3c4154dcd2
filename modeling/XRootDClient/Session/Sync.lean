import XRootDClient.Proto.Streams

/-!
# The blocking driver

`Session` turns the machine's events into returns and exceptions. It sends what the machine
has queued, feeds it what a transport receives, hands the events of its own stream to the
loop that waits for them and parks those of other streams in the inbox. What the network
does is given: the outcome of every turn of the pump, and of every resend.
-/

set_option autoImplicit false

namespace XRootDClient.Sync

open Lib Lib.BigEndian Lib.Stateful Auth Proto

structure Result where
  data : Bytes
  status : Option StatusInfo
  deriving DecidableEq

/-- A transport that gives up: so many sends go through and the next one raises. -/
structure Fault where
  sends : Nat
  error : Exception

structure Arrival where
  fault : Option Fault := none
  received : Except Exception Bytes

/-- The control link's transport has no number; a data path is known by its id. The
settings of a session are its machine's. -/
structure Session (Body : Type) where
  machine : Machine Body
  inbox : Dict Nat (List Event) := ∅
  notices : List AttnInfo := []
  paths : List Nat := []
  arrivesOnPath : Option Bool := none

/-- What the caller and the network bring to a call: `on_chunk`, given all the pieces it
was passed so far, may raise, and so may the sends of a resend. -/
structure Caller where
  onChunk : Option (List Bytes → Option Exception) := none
  resends : Nat → Option Fault := fun _ => none

inductive Action
  | passed (data : Bytes)
  | slept (seconds : ℚ)
  | resent
  deriving DecidableEq

def pieces (trace : List Action) : List Bytes :=
  trace.filterMap fun
    | .passed data => some data
    | _ => none

/-- The variables of the loop of `_await`, and what was done so far. -/
structure Progress where
  waits : Nat := 0
  streamed : Nat := 0
  trace : List Action := []

/-- How a call leaves: with a result, with the error of a `Failed`, with the two
exceptions of its own, or with anything else that was raised. -/
inductive Exit
  | returned (result : Result)
  | failed (error : Exception)
  | redirectRequired (target : RedirectInfo)
  | waitLimitError (message : Text) (attempts : Nat)
  | raised (error : Exception)
  deriving DecidableEq

abbrev Act (Body : Type) := EStateM Exception (Session Body)

namespace Session

variable {Body : Type}

def onMachine {Value : Type} (act : Proto.Act Body Value) : Act Body Value := fun session =>
  match act session.machine with
  | .ok value machine => .ok value { session with machine }
  | .error error machine => .error error { session with machine }

def closed (session : Session Body) : Bool :=
  session.machine.state = .CLOSED || session.machine.state = .FAILED

def endpoint (session : Session Body) : Text :=
  session.machine.host ++ str ":" ++ Text.ofNat session.machine.port

def closePath (pathid : Nat) (session : Session Body) : Session Body :=
  { session with
    paths := session.paths.erase pathid
    machine := Machine.forgetPath pathid session.machine }

/-- One `transport.send` of a flush; what is left of the fault for the next one. -/
def transmit (data : Bytes) (fault : Option Fault) : Except Exception (Option Fault) :=
  if data = [] then .ok fault
  else
    match fault with
    | none => .ok none
    | some ⟨0, error⟩ => .error error
    | some ⟨sends + 1, error⟩ => .ok (some ⟨sends, error⟩)

def flushPaths : List Nat → Option Fault → Proto.Act Body Unit
  | [], _ => pure ()
  | pathid :: rest, fault => do
      let fault ← Machine.attempt (transmit (← modifyGet (Machine.pathDataToSend pathid)) fault)
      flushPaths rest fault

def flush (fault : Option Fault) : Act Body Unit := do
  let paths := (← get).paths
  onMachine do
    let fault ← Machine.attempt (transmit (← modifyGet Machine.dataToSend) fault)
    flushPaths paths fault

def events : Act Body (List Event) :=
  modifyGet fun session =>
    (session.machine.events, { session with machine := { session.machine with events := [] } })

variable [Exchange Body] (installation : Installation Body)

def pump (pathid : Nat) (arrival : Arrival) : Act Body (List Event) := do
  flush arrival.fault
  if pathid ≠ 0 ∧ pathid ∉ (← get).paths then
    throw (.foreign (str "KeyError") (Text.ofNat pathid))
  match arrival.received with
  | .error error => throw error
  | .ok data =>
      onMachine (Machine.receiveData installation data pathid)
      events

/-- `self._inbox.setdefault(target, []).append(event)`. -/
def park (target : Nat) (event : Event) (session : Session Body) : Session Body :=
  { session with inbox := session.inbox.set target (session.inbox.getD target [] ++ [event]) }

omit [Exchange Body] in
/-- What `_events_for` does with an event that is not for the stream it waits for. -/
def setAside (event : Event) : Act Body Unit :=
  match event with
  | .attention info => modify fun session => { session with notices := session.notices ++ [info] }
  | .pathLost pathid _ => modify (closePath pathid)
  | .disconnected reason => throw (.connectionError (str "connection lost: " ++ reason))
  | .failed none _ error => throw error
  | event =>
      match event.stream with
      | some target => modify (park target event)
      | none => pure ()

omit [Exchange Body] in
/-- The loop of `_events_for` over the events of one turn of the pump. -/
def sort (sid : Nat) : List Event → Act Body (List Event)
  | [] => pure []
  | event :: rest => do
      if event.stream = some sid then
        return event :: (← sort sid rest)
      else
        setAside event
        sort sid rest

/-- One turn of the loop of `_events_for`: the events for a stream, if any have come. -/
def listen (sid pathid : Nat) (arrival : Arrival) : Act Body (List Event) := do
  sort sid (← pump installation pathid arrival)

end Session

section Await

variable {Body : Type} (caller : Caller) (sid : Nat)

/-- `on_chunk(data)`, if there is an `on_chunk`; what it raises. -/
def pass (data : Bytes) (progress : Progress) : Option Exception × Progress :=
  match caller.onChunk with
  | none => (none, progress)
  | some onChunk =>
      let progress := { progress with trace := progress.trace ++ [.passed data] }
      (onChunk (pieces progress.trace), progress)

/-- What becomes of the call, of its variables and of the session. -/
abbrev Outcome (Body : Type) := Option Exit × Progress × Session Body

/-- `time.sleep(seconds)`, `self._m.resume(sid)`, `self._flush()`. -/
def resend (seconds : ℚ) (progress : Progress) (session : Session Body) : Outcome Body :=
  let progress := { progress with trace := progress.trace ++ [.slept seconds] }
  if seconds < 0 then
    (some (.raised (.foreign (str "ValueError") (str "sleep length must be non-negative"))),
      progress, session)
  else
    match Session.onMachine (Machine.resume sid) session with
    | .error error session => (some (.raised error), progress, session)
    | .ok _ session =>
        let progress := { progress with trace := progress.trace ++ [.resent] }
        match Session.flush (caller.resends progress.waits) session with
        | .error error session => (some (.raised error), progress, session)
        | .ok _ session => (none, { progress with streamed := 0 }, session)

def heed (event : Event) (progress : Progress) (session : Session Body) : Outcome Body :=
  match event with
  | .completed _ _ data status =>
      if caller.onChunk.isSome && progress.streamed < data.length then
        match pass caller (data.drop progress.streamed) progress with
        | (some error, progress) => (some (.raised error), progress, session)
        | (none, progress) => (some (.returned ⟨data, status⟩), progress, session)
      else (some (.returned ⟨data, status⟩), progress, session)
  | .failed _ _ error => (some (.failed error), progress, session)
  | .chunk _ _ data =>
      match pass caller data progress with
      | (some error, progress) => (some (.raised error), progress, session)
      | (none, progress) =>
          (none, { progress with streamed := progress.streamed + data.length }, session)
  | .redirected _ _ target =>
      (some (.redirectRequired target), progress,
        { session with machine := Machine.release sid session.machine })
  | .waiting _ request seconds _ true =>
      let progress := { progress with waits := progress.waits + 1 }
      if session.machine.config.redirectLimit < progress.waits then
        (some (.waitLimitError (str "server kept asking to wait for " ++ request.typeName)
          progress.waits), progress, session)
      else resend caller sid seconds progress session
  | _ => (none, progress, session)

def handle : List Event → Progress → Session Body → Outcome Body
  | [], progress, session => (none, progress, session)
  | event :: rest, progress, session =>
      match heed caller sid event progress session with
      | (some exit, progress, session) => (some exit, progress, session)
      | (none, progress, session) => handle rest progress session

variable [Exchange Body] (installation : Installation Body)

/-- `_await`, from the events that are there on. It is still waiting when what arrives is
used up. Events of the stream itself are not parked while it is waited for, so the inbox is
only looked into at the beginning. -/
def await (pathid : Nat) : List Arrival → List Event → Progress → Session Body → Outcome Body
  | [], events, progress, session => handle caller sid events progress session
  | arrival :: rest, events, progress, session =>
      match handle caller sid events progress session with
      | (some exit, progress, session) => (some exit, progress, session)
      | (none, progress, session) =>
          match session.listen installation sid pathid arrival with
          | .ok mine session => await pathid rest mine progress session
          | .error error session => (some (.raised error), progress, session)

end Await

namespace Session

variable {Body : Type}

def parked (session : Session Body) (sid : Nat) : List Event := session.inbox.getD sid []

/-- `self._inbox.pop(sid, None)`, without its answer. -/
def unpark (sid : Nat) (session : Session Body) : Session Body :=
  { session with inbox := session.inbox.erase sid }

def onPath (request : Request) (arriveOnPath : Bool) (session : Session Body) : Bool :=
  arriveOnPath && session.arrivesOnPath ≠ some false && request.pathid ≠ 0 &&
    request.pathid ∈ session.paths

/-- What `execute` does when a request that went down its data path has left `_await`. -/
def settlePath (pathid : Nat) (exit : Option Exit) (session : Session Body) : Session Body :=
  match exit with
  | none => session
  | some (.returned _) => { session with arrivesOnPath := some true }
  | some _ => closePath pathid { session with arrivesOnPath := some false }

def answersOn (request : Request) (onPath : Bool) : Nat :=
  if onPath then request.pathid else if request.replyOnPath then request.pathid else 0

variable [Exchange Body] (installation : Installation Body)

def awaited (caller : Caller) (request : Request) (onPath : Bool) (arrivals : List Arrival)
    (sid : Nat) (session : Session Body) : Outcome Body :=
  let (exit, progress, session) := await caller sid installation (answersOn request onPath)
    arrivals (session.parked sid) {} (session.unpark sid)
  (exit, progress, if onPath then settlePath request.pathid exit session else session)

def execute (caller : Caller) (request : Request) (path : Text) (arriveOnPath : Bool)
    (arrivals : List Arrival) (session : Session Body) : Outcome Body :=
  if session.closed then
    (some (.raised (.connectionError
      (str "session to " ++ session.endpoint ++ str " is closed"))), {}, session)
  else if request.pathid ≠ 0 ∧ request.pathid ∉ session.paths then
    (some (.raised (.foreign (str "ValueError") (str "data path " ++ Text.ofNat request.pathid ++
      str " is not bound to " ++ session.endpoint))), {}, session)
  else
    let onPath := onPath request arriveOnPath session
    match onMachine (Machine.submit request path onPath) session with
    | .error error session => (some (.raised error), {}, session)
    | .ok sid session => awaited installation caller request onPath arrivals sid session

omit [Exchange Body] in
/-- `close`; what it raises on the way is passed over. -/
def close (fault : Option Fault) (session : Session Body) : Session Body :=
  let session := if session.machine.state = .READY then
      final ((do onMachine (Machine.close true); flush fault : Act Body Unit) session)
    else session
  { session with paths := [], machine := { session.machine with state := .CLOSED } }

/-- The sessions there can be: one whose bring-up has just read its last event, and what the
calls on a session leave. A data path is bound by a machine of its own. -/
inductive Reached : Session Body → Prop
  | connected {machine : Machine Body} (host : Text) (port : Nat) (config : Config)
      (credentials : Option (List (Credential Body))) (username : Text) (wantTls : Bool)
      (calls : List Call)
      (brought : machine = Machine.after installation calls
        (Machine.new host port config credentials username wantTls []))
      (ready : machine.state = .READY) (read : machine.events = []) : Reached { machine }
  | executed {session : Session Body} (caller : Caller) (request : Request) (path : Text)
      (arriveOnPath : Bool) (arrivals : List Arrival) (reached : Reached session) :
      Reached (execute installation caller request path arriveOnPath arrivals session).2.2
  | bound {session : Session Body} (pathid : Nat) (fresh : pathid ∉ session.paths)
      (reached : Reached session) : Reached { session with paths := session.paths ++ [pathid] }
  | noticed {session : Session Body} (reached : Reached session) :
      Reached { session with notices := [] }
  | closed {session : Session Body} (fault : Option Fault) (reached : Reached session) :
      Reached (close fault session)

end Session

end XRootDClient.Sync
