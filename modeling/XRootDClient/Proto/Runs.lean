import XRootDClient.Lib.Run
import XRootDClient.Proto.Outbound
import XRootDClient.Proto.Turns

/-!
# Runs of a machine

A driver makes calls; a call that feeds bytes is a sequence of finer moves, one
for the bytes and one for each turn of the loop. `perform_moves` says that the
finer run is the same run, so whatever every move keeps, every sequence of calls
keeps. A call that raises leaves the machine as it was when the exception left
it, and the driver may go on.
-/

set_option autoImplicit false

namespace XRootDClient.Proto

open Lib Lib.BigEndian Lib.Stateful Lib.Run Auth

inductive Call
  | start
  | submit (request : Request) (path : Text) (arriveOnPath : Bool)
  | resume (streamid : Nat)
  | release (streamid : Nat)
  | close (graceful : Bool)
  | tlsEstablished
  | receiveData (data : Bytes) (pathid : Nat)
  | forgetPath (pathid : Nat)
  | dataToSend
  | pathDataToSend (pathid : Nat)
  | nextEvent

/-- One move of a run: a call, the bytes of one feed, or one turn of the loop. -/
inductive Move
  | start
  | submit (request : Request) (path : Text) (arriveOnPath : Bool)
  | resume (streamid : Nat)
  | release (streamid : Nat)
  | close (graceful : Bool)
  | tlsEstablished
  | eof (pathid : Nat)
  | feed (data : Bytes) (pathid : Nat)
  | turn (pathid : Nat)
  | forgetPath (pathid : Nat)
  | dataToSend
  | pathDataToSend (pathid : Nat)
  | nextEvent

namespace Machine

variable {Body : Type}

def eof (pathid : Nat) (machine : Machine Body) : Machine Body :=
  let machine := { machine with framers := machine.framers.setDefault pathid {} }
  if pathid = 0 then onEof machine else onPathEof pathid machine

/-- Bytes added to a link's buffer, before any of them is looked at. -/
def feed (data : Bytes) (pathid : Nat) (machine : Machine Body) : Machine Body :=
  let machine := { machine with framers := machine.framers.setDefault pathid {} }
  let framer := machine.framer pathid
  storeFramer pathid { framer with buffer := framer.buffer ++ data } machine

variable [Exchange Body] (installation : Installation Body)

def perform (call : Call) (machine : Machine Body) : Machine Body :=
  match call with
  | .start => final (start machine)
  | .submit request path arriveOnPath => final (submit request path arriveOnPath machine)
  | .resume streamid => final (resume streamid machine)
  | .release streamid => release streamid machine
  | .close graceful => final (close graceful machine)
  | .tlsEstablished => final (tlsEstablished installation machine)
  | .receiveData data pathid => final (receiveData installation data pathid machine)
  | .forgetPath pathid => forgetPath pathid machine
  | .dataToSend => (dataToSend machine).2
  | .pathDataToSend pathid => (pathDataToSend pathid machine).2
  | .nextEvent => (nextEvent machine).2

def step (move : Move) (machine : Machine Body) : Machine Body :=
  match move with
  | .start => final (start machine)
  | .submit request path arriveOnPath => final (submit request path arriveOnPath machine)
  | .resume streamid => final (resume streamid machine)
  | .release streamid => release streamid machine
  | .close graceful => final (close graceful machine)
  | .tlsEstablished => final (tlsEstablished installation machine)
  | .eof pathid => eof pathid machine
  | .feed data pathid => feed data pathid machine
  | .turn pathid => final (turn installation pathid machine)
  | .forgetPath pathid => forgetPath pathid machine
  | .dataToSend => (dataToSend machine).2
  | .pathDataToSend pathid => (pathDataToSend pathid machine).2
  | .nextEvent => (nextEvent machine).2

/-- What each move can do, as far as it is not a plain function of the machine. -/
inductive StepMove (before : Machine Body) : Move → Machine Body → Prop
  | start {after : Machine Body} (moved : StartMove before after) : StepMove before .start after
  | submit {request : Request} {path : Text} {arriveOnPath : Bool} {issued : Option Nat}
      {after : Machine Body} (moved : SubmitMove request path arriveOnPath before issued after) :
      StepMove before (.submit request path arriveOnPath) after
  | resume {streamid : Nat} {after : Machine Body} (moved : ResumeMove streamid before after) :
      StepMove before (.resume streamid) after
  | close {graceful : Bool} {after : Machine Body} (moved : CloseMove before after) :
      StepMove before (.close graceful) after
  | tlsEstablished {after : Machine Body} (moved : TlsMove installation before after) :
      StepMove before .tlsEstablished after
  | turn {pathid : Nat} {after : Machine Body} (moved : TurnMove installation pathid before after) :
      StepMove before (.turn pathid) after
  | release (streamid : Nat) : StepMove before (.release streamid) (release streamid before)
  | eof (pathid : Nat) : StepMove before (.eof pathid) (eof pathid before)
  | feed (data : Bytes) (pathid : Nat) :
      StepMove before (.feed data pathid) (feed data pathid before)
  | forgetPath (pathid : Nat) : StepMove before (.forgetPath pathid) (forgetPath pathid before)
  | dataToSend : StepMove before .dataToSend { before with out := [] }
  | pathDataToSend (pathid : Nat) :
      StepMove before (.pathDataToSend pathid)
        { before with outPath := before.outPath.erase pathid }
  | nextEvent : StepMove before .nextEvent { before with events := before.events.tail }

theorem step_move (move : Move) (machine : Machine Body) :
    StepMove installation machine move (step installation move machine) := by
  cases move with
  | start => exact .start (start_move machine)
  | submit request path arriveOnPath =>
      exact .submit (submit_move request path arriveOnPath machine)
  | resume streamid => exact .resume (resume_move streamid machine)
  | close graceful => exact .close (close_move graceful machine)
  | tlsEstablished => exact .tlsEstablished (tls_established_move installation machine)
  | turn pathid => exact .turn (turn_move installation pathid machine)
  | release streamid => exact .release streamid
  | eof pathid => exact .eof pathid
  | feed data pathid => exact .feed data pathid
  | forgetPath pathid => exact .forgetPath pathid
  | dataToSend => exact .dataToSend
  | pathDataToSend pathid => exact .pathDataToSend pathid
  | nextEvent => exact .nextEvent

def turnsTaken (pathid : Nat) : Nat → Machine Body → Nat
  | 0, _ => 0
  | fuel + 1, machine =>
      match turn installation pathid machine with
      | .ok true machine => turnsTaken pathid fuel machine + 1
      | _ => 1

def moves (call : Call) (machine : Machine Body) : List Move :=
  match call with
  | .start => [.start]
  | .submit request path arriveOnPath => [.submit request path arriveOnPath]
  | .resume streamid => [.resume streamid]
  | .release streamid => [.release streamid]
  | .close graceful => [.close graceful]
  | .tlsEstablished => [.tlsEstablished]
  | .receiveData data pathid =>
      if data = [] then [.eof pathid]
      else
        let fed := feed data pathid machine
        .feed data pathid :: List.replicate
          (turnsTaken installation pathid (parseFuel (fed.framer pathid)) fed) (.turn pathid)
  | .forgetPath pathid => [.forgetPath pathid]
  | .dataToSend => [.dataToSend]
  | .pathDataToSend pathid => [.pathDataToSend pathid]
  | .nextEvent => [.nextEvent]

def movesOf : List Call → Machine Body → List Move
  | [], _ => []
  | call :: rest, machine =>
      moves installation call machine ++ movesOf rest (perform installation call machine)

def after (calls : List Call) (machine : Machine Body) : Machine Body :=
  run (perform installation) calls machine

/-- Every move a sequence of calls makes, with the machine before and after it. -/
def traced (calls : List Call) (machine : Machine Body) : List (Entry Move (Machine Body)) :=
  history (step installation) (movesOf installation calls machine) machine

theorem parse_run (pathid fuel : Nat) (machine : Machine Body) :
    final (parse installation pathid fuel machine) =
      run (step installation)
        (List.replicate (turnsTaken installation pathid fuel machine) (.turn pathid)) machine := by
  induction fuel generalizing machine with
  | zero => rfl
  | succ fuel induction =>
      rw [parse, run_bind, turnsTaken]
      cases taken : turn installation pathid machine with
      | error error left =>
          simp [run, step, taken]
      | ok more left =>
          cases more with
          | false => simp [run, step, taken]
          | true =>
              simp only [if_true, List.replicate_succ, run, step, taken, final_ok]
              exact induction left

theorem receive_data_run (data : Bytes) (pathid : Nat) (machine : Machine Body) :
    receiveData installation data pathid machine =
      if data = [] then .ok () (eof pathid machine)
      else
        parse installation pathid (parseFuel ((feed data pathid machine).framer pathid))
          (feed data pathid machine) := by
  unfold receiveData
  by_cases none : data = []
  · by_cases control : pathid = 0 <;> simp [none, control, eof]
  · simp only [none, run_bind, run_modify, run_get, if_false]
    rfl

theorem perform_moves (call : Call) (machine : Machine Body) :
    run (step installation) (moves installation call machine) machine =
      perform installation call machine := by
  cases call with
  | receiveData data pathid =>
      simp only [moves, perform, receive_data_run]
      by_cases none : data = []
      · simp [none, run, step]
      · rw [if_neg none, if_neg none, parse_run]
        rfl
  | start | submit | resume | release | close | tlsEstablished | forgetPath | dataToSend
    | pathDataToSend | nextEvent => rfl

theorem run_moves_of (calls : List Call) (machine : Machine Body) :
    run (step installation) (movesOf installation calls machine) machine =
      after installation calls machine := by
  induction calls generalizing machine with
  | nil => rfl
  | cons call rest induction =>
      rw [movesOf, run_append, perform_moves, induction]
      rfl

/-- What every allowed move keeps holds after every sequence of calls whose
moves are allowed. -/
theorem calls_invariant (Allowed : Entry Move (Machine Body) → Prop)
    (Holds : Machine Body → Prop)
    (keeps : ∀ machine move, Allowed ⟨machine, move, step installation move machine⟩ →
      Holds machine → Holds (step installation move machine))
    (calls : List Call) (machine : Machine Body)
    (allowed : ∀ entry ∈ traced installation calls machine, Allowed entry)
    (holds : Holds machine) : Holds (after installation calls machine) := by
  rw [← run_moves_of]
  exact run_invariant _ Allowed Holds keeps _ machine allowed holds

def greets (flags : Nat) (security : Bytes) : Bytes :=
  let version := BigEndian.encode 4 kXR_PROTOCOLVERSION
  response 0 kXR_ok (version ++ BigEndian.encode 4 1) ++
    response sidProtocol kXR_ok (version ++ BigEndian.encode 4 flags ++ security)

def admits (sec : Text) : Bytes :=
  response sidLogin kXR_ok (List.replicate SESSION_ID_LEN 7 ++ Text.encodeUtf8 sec)

/-- The body of a `kXR_status` to a paged read, with the data it declares. -/
def paged (streamid resptype : Nat) (dlen : Int) : Bytes :=
  BigEndian.encode 4 0 ++ BigEndian.encode 2 streamid ++
    BigEndian.encode 1 (kXR_pgread - kXR_1stRequest) ++ BigEndian.encode 1 resptype ++
    Writer.zeros 4 ++ BigEndian.encode 4 (BigEndian.unsigned 4 dlen)

/-- A machine brought up without authentication, its greeting sent. -/
def plainMachine : Machine OneShot :=
  after (Installation.bare OneShot) [.start, .receiveData (greets 1 [] ++ admits []) 0, .dataToSend]
    (new (str "data") DEFAULT_PORT {} none [] false [])

end Machine

end XRootDClient.Proto
